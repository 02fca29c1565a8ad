import Dashboards.Proofs.Decimal.Packing
import Dashboards.Proofs.Metrics.Range

/-!
# Finite numbers

Whether a number is finite can be seen from its exact value and from the float that it is rounded to,
and both ways give the same answer: an integer that is rounded to a float at all is rounded to a
finite one.  A finite float differs from itself by zero.
-/

open Float.Model Float.Model.UnpackedFloat

namespace Dashboards

namespace Binary

/-! ## 1. Floats that are numbers -/

theorem unpack_packComponents_ne {e : BitVec 11} {m : BitVec 52} (h : e ≠ -1#11 ∨ m = 0#52)
    (s : Sign) :
    UnpackedFloat.unpack .binary64 (packComponents .binary64 s e m) ≠ .notANumber := by
  rw [unpack_packComponents]
  split
  · rename_i he
    rw [if_pos (h.resolve_left (not_not_intro he))]
    nofun
  · split
    · split <;> nofun
    · nofun

/-- A pattern is that of no NaN unless a NaN was packed. -/
theorem unpack_pack_ne {u : UnpackedFloat} (h : u ≠ .notANumber) :
    (Float.Model.pack u).unpack ≠ .notANumber := by
  show UnpackedFloat.unpack .binary64 (u.pack .binary64) ≠ _
  cases u with
  | notANumber => exact absurd rfl h
  | infinity s => exact unpack_packComponents_ne (.inr rfl) s
  | zero s => exact unpack_packComponents_ne (.inr rfl) s
  | finite s m e hm =>
    rw [UnpackedFloat.pack]
    split
    · exact unpack_packComponents_ne (.inr rfl) s
    · rename_i hsmall
      split
      · refine unpack_packComponents_ne (.inl fun heq => ?_) s
        have hnat := congrArg BitVec.toNat heq
        rw [BitVec.toNat_ofNat] at hnat
        change ¬ 2 ^ 11 ≤ _ + 1 at hsmall
        change _ % 2 ^ 11 = 2 ^ 11 - 1 at hnat
        omega
      · exact unpack_packComponents_ne (.inl (by decide)) s

theorem roundWithAccuracy_ne (s : Sign) (m : Nat) (e : Int) (a : Accuracy) :
    UnpackedFloat.roundWithAccuracy .binary64 s m e a ≠ .notANumber := by
  unfold UnpackedFloat.roundWithAccuracy
  dsimp only
  split <;> nofun

theorem normalize_ne (m e : Int) (s : Sign) : UnpackedFloat.normalize .binary64 m e s ≠ .notANumber := by
  unfold UnpackedFloat.normalize
  split
  · exact roundWithAccuracy_ne _ _ _ _
  · nofun
  · exact roundWithAccuracy_ne _ _ _ _

theorem mul_finite_ne {u : UnpackedFloat} (h : u ≠ .notANumber) (s : Sign) (m : Nat) (e : Int)
    (hm : 0 < m) : UnpackedFloat.mul .binary64 u (.finite s m e hm) ≠ .notANumber := by
  cases u with
  | notANumber => exact absurd rfl h
  | infinity s => nofun
  | zero s => nofun
  | finite s m e hm => exact roundWithAccuracy_ne _ _ _ _

/-- A natural number is not rounded to a NaN. -/
theorem unpack_ofNat_ne (n : Nat) : (Float.ofNat n).toModel.unpack ≠ .notANumber := by
  show (Float.ofScientific n false 0).toModel.unpack ≠ _
  rw [Float.ofScientific]
  split
  · have hone : (Float.exactlyRepresentablePowersOfTen[0]).toModel.unpack =
        .finite .positive (2 ^ 52) (-52) (by decide) := by with_unfolding_all rfl
    show (Float.Model.pack (UnpackedFloat.mul .binary64 n.toUInt64.toFloat.toModel.unpack
      (Float.exactlyRepresentablePowersOfTen[0]).toModel.unpack)).unpack ≠ _
    rw [hone]
    exact unpack_pack_ne (mul_finite_ne (unpack_pack_ne (normalize_ne _ _ _)) _ _ _ _)
  · refine unpack_pack_ne ?_
    show UnpackedFloat.ofScientific .binary64 n 0 ≠ _
    unfold UnpackedFloat.ofScientific
    split
    · intro h
      cases h
    · have hlow : ¬ (0 : Int) < -(2 ^ Format.binary64.exponentBits + (n.log2 : Int)) := by
        have hpow : (0 : Int) ≤ 2 ^ Format.binary64.exponentBits := by decide
        omega
      rw [if_neg (by decide), if_neg hlow, if_pos (Int.le_refl 0)]
      refine mul_finite_ne ?_ _ _ _ _
      intro h
      cases h

theorem unpack_ofInt_ne (k : Int) : (Float.ofInt k).toModel.unpack ≠ .notANumber := by
  cases k with
  | ofNat n => exact unpack_ofNat_ne n
  | negSucc n =>
    refine unpack_pack_ne ?_
    have hpos := unpack_ofNat_ne n.succ
    show UnpackedFloat.neg (Float.ofNat n.succ).toModel.unpack ≠ _
    cases hunpack : (Float.ofNat n.succ).toModel.unpack with
    | notANumber => exact absurd hunpack hpos
    | _ => nofun

end Binary

/-! ## 2. Finite numbers -/

namespace Number

variable {n : Number}

theorem isFinite_float (x : Float) : (float x).isFinite = x.isFinite := by
  show _ = x.toModel.unpack.isFinite
  rw [isFinite, exact_float]
  cases x.toModel.unpack with
  | infinity s => cases s <;> rfl
  | _ => rfl

/-- An integer that is not rounded to an infinity is rounded to a finite float. -/
theorem isFinite_ofInt {k : Int} (h : (Float.ofInt k).isInf = false) :
    (Float.ofInt k).isFinite = true := by
  have hne := Binary.unpack_ofInt_ne k
  show (Float.ofInt k).toModel.unpack.isFinite = true
  change (Float.ofInt k).toModel.unpack.isInf = false at h
  cases hunpack : (Float.ofInt k).toModel.unpack with
  | notANumber => exact absurd hunpack hne
  | infinity s =>
    rw [hunpack] at h
    cases h
  | _ => rfl

/-- Within the range of floats, a number is finite if the float nearest to it is. -/
theorem hasFiniteFloat_eq_ok_iff {finite : Bool} :
    n.hasFiniteFloat = .ok finite ↔ n.Fits ∧ n.isFinite = finite := by
  cases n with
  | float x =>
    rw [isFinite_float]
    exact ⟨fun h => ⟨fits_float x, Except.ok.inj h⟩, fun h => congrArg Except.ok h.2⟩
  | undefined mark =>
    have hnan : (0.0 / 0.0 : Float).isFinite = false := by decide
    have hhas : (undefined mark).hasFiniteFloat = .ok false :=
      congrArg (Except.ok (ε := ArithmeticFault)) hnan
    rw [hhas]
    exact ⟨fun h => ⟨⟨_, rfl, trivial⟩, Except.ok.inj h⟩, fun h => congrArg Except.ok h.2⟩
  | int k =>
    cases hrange : (Float.ofInt k).isInf with
    | false =>
      rw [hasFiniteFloat, toFloat_int hrange]
      show (Except.ok (Float.ofInt k).isFinite : Calculated Bool) = _ ↔ _
      rw [isFinite_ofInt hrange]
      exact ⟨fun h => ⟨fits_int hrange, Except.ok.inj h⟩, fun h => congrArg Except.ok h.2⟩
    | true =>
      have herror : (int k).toFloat = .error .integerTooLarge := if_pos hrange
      rw [hasFiniteFloat, Fits, herror]
      exact ⟨nofun, fun ⟨⟨x, hx, _⟩, _⟩ => nomatch hx⟩

/-! ## 3. Differences -/

/-- The magnitude of a finite float is no NaN. -/
theorem isNaN_abs {x : Float} (h : x.isFinite = true) : (float x.abs).isNaN = false := by
  have hunpack : x.toModel.unpack.abs ≠ .notANumber := by
    change x.toModel.unpack.isFinite = true at h
    cases hx : x.toModel.unpack with
    | notANumber =>
      rw [hx] at h
      cases h
    | _ => nofun
  have hpacked : x.abs.toModel.unpack ≠ .notANumber := Binary.unpack_pack_ne hunpack
  rw [isNaN, exact_float]
  cases hx : x.abs.toModel.unpack with
  | notANumber => exact absurd hx hpacked
  | infinity s => cases s <;> rfl
  | _ => rfl

/-- A finite float differs from itself by zero. -/
theorem sub_self {x : Float} (h : x.isFinite = true) : x - x = 0.0 := by
  have hsub : x - x = .ofModel (.pack (.sub .binary64 x.toModel.unpack x.toModel.unpack)) := rfl
  have hzero : (0.0 : Float) = .ofModel (.pack (.zero .positive)) := by with_unfolding_all rfl
  change x.toModel.unpack.isFinite = true at h
  rw [hsub, hzero]
  congr 2
  cases hunpack : x.toModel.unpack with
  | notANumber | infinity s =>
    rw [hunpack] at h
    cases h
  | zero s => cases s <;> rfl
  | finite s m e hm => simp [UnpackedFloat.sub, UnpackedFloat.normalize]

/-- Zero divided by a float that is not zero is zero, unless the float is a NaN. -/
theorem exact_zero_div {y : Float} (hnan : (float y).isNaN = false) (hzero : (y == 0.0) = false) :
    (float (0.0 / y)).exact = .finite 0 := by
  have hdiv : 0.0 / y = .ofModel (.pack (.div .binary64 (.zero .positive) y.toModel.unpack)) := by
    have hunpack : (0.0 : Float).toModel.unpack = .zero .positive := by with_unfolding_all rfl
    rw [← hunpack]
    rfl
  have hpacked (s : Sign) : (float (.ofModel (.pack (.zero s)))).exact = .finite 0 := by
    cases s <;> decide
  rw [hdiv]
  cases hunpack : y.toModel.unpack with
  | notANumber => simp [isNaN, exact_float, hunpack] at hnan
  | infinity s => exact hpacked _
  | finite s m e hm => exact hpacked _
  | zero s =>
    rw [← same_zero, same, exact_float, hunpack] at hzero
    cases s <;> exact absurd hzero (by decide)

end Number

end Dashboards
