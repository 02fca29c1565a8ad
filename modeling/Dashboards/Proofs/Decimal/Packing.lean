import Mathlib
import Dashboards.Proofs.Decimal.Rounding

/-!
# Finite floats as bit patterns

A finite float is stored as its sign, its exponent and the mantissa without the leading bit, or, where
the leading bit is not set, with an exponent of zero.  A canonical mantissa and exponent are taken out
of the pattern as they were put in, and what is taken out of a pattern is canonical.
-/

open Float.Model Float.Model.UnpackedFloat

namespace Dashboards

namespace Binary

/-! ## 1. Parts of a pattern -/

theorem toNat_one_append (m : BitVec 52) : (1#1 ++ m).toNat = 2 ^ 52 + m.toNat := by
  rw [BitVec.toNat_append, ← Nat.shiftLeft_add_eq_or_of_lt m.isLt]
  rfl

/-- What a pattern stands for, by its exponent: no finite number, a number that does not use all bits
of its mantissa, or one that does. -/
theorem unpack_packComponents (s : Sign) (e : BitVec 11) (m : BitVec 52) :
    UnpackedFloat.unpack .binary64 (packComponents .binary64 s e m) =
      if e = -1#11 then if m = 0#52 then .infinity s else .notANumber
      else if e = 0#11 then
        if h : 0 < m.toNat then .finite s m.toNat (-1074) h else .zero s
      else
        .finite s (2 ^ 52 + m.toNat) (e.toNat - 1075) (Nat.add_pos_left (Nat.two_pow_pos 52) _) := by
  unfold UnpackedFloat.unpack
  simp only [unpackMantissa_packComponents, unpackExponent_packComponents,
    unpackSign_packComponents, Sign.ofBitVec_toBitVec, toNat_one_append]
  split
  · rfl
  · split
    · rename_i he
      subst he
      by_cases hm : m = 0#52
      · subst hm
        rfl
      · have hpos : 0 < m.toNat := by
          rw [Nat.pos_iff_ne_zero]
          exact fun h => hm (BitVec.eq_of_toNat_eq h)
        rw [dif_neg hm, dif_pos hpos]
        rfl
    · rfl

/-! ## 2. Packing and unpacking -/

variable {s : Sign} {m : Nat} {q : Int} {hm : 0 < m}

/-- The exponent is stored if all bits of the mantissa are used. -/
theorem pack_finite (h : Canonical m q) (s : Sign) (hm : 0 < m) :
    UnpackedFloat.pack .binary64 (.finite s m q hm) =
      packComponents .binary64 s (if 2 ^ 52 ≤ m then BitVec.ofNat 11 (q + 1075).toNat else 0#11)
        (BitVec.ofNat 52 m) := by
  have hlt := h.lt
  have hgreatest := h.greatest
  show (if 2 ^ 11 ≤ (q + (1023 : Nat) + (52 : Nat)).toNat + 1 then _
    else if m.log2 + 1 = 53 then
      packComponents .binary64 s (BitVec.ofNat 11 (q + (1023 : Nat) + (52 : Nat)).toNat) _
    else _) = _
  rw [show q + (1023 : Nat) + (52 : Nat) = q + 1075 by omega, if_neg (by omega)]
  by_cases hfull : 2 ^ 52 ≤ m
  · have hbits : m.log2 = 52 := (Nat.log2_eq_iff (by omega)).2 ⟨hfull, hlt⟩
    rw [hbits, if_pos rfl, if_pos hfull]
  · have hbits : m.log2 < 52 := (Nat.log2_lt (Nat.ne_of_gt hm)).2 (by omega)
    rw [if_neg (by omega), if_neg hfull]

/-- The finite float that a bit pattern stands for is canonical. -/
theorem canonical_of_unpack {b : BitVec 64}
    (h : UnpackedFloat.unpack .binary64 b = .finite s m q hm) : Canonical m q := by
  have hparts := @packComponents_unpackSign_unpackExponent_unpackMantissa .binary64 b
  rw [← hparts, unpack_packComponents] at h
  generalize @unpackExponent .binary64 b = exponent at h
  generalize @unpackMantissa .binary64 b = mantissa at h
  have hmlt : mantissa.toNat < 2 ^ 52 := mantissa.isLt
  have helt : exponent.toNat < 2 ^ 11 := exponent.isLt
  split at h
  · split at h <;> cases h
  · rename_i hlast
    have hlast' : exponent.toNat ≠ 2 ^ 11 - 1 := fun h => hlast (BitVec.eq_of_toNat_eq h)
    split at h
    · split at h
      · injection h with _ hmant hq
        subst hmant hq
        exact ⟨hm, by omega, by omega, by omega, .inr rfl⟩
      · cases h
    · rename_i hzero
      have hzero' : exponent.toNat ≠ 0 := fun h => hzero (BitVec.eq_of_toNat_eq h)
      injection h with _ hmant hq
      subst hmant hq
      exact ⟨hm, by omega, by omega, by omega, .inl (by omega)⟩

theorem unpack_pack (h : Canonical m q) (s : Sign) (hm : 0 < m) :
    UnpackedFloat.unpack .binary64 (UnpackedFloat.pack .binary64 (.finite s m q hm)) =
      .finite s m q hm := by
  have hlt := h.lt
  have hleast := h.least
  have hgreatest := h.greatest
  rw [pack_finite h, unpack_packComponents]
  by_cases hfull : 2 ^ 52 ≤ m
  · have hexp : (BitVec.ofNat 11 (q + 1075).toNat).toNat = (q + 1075).toNat :=
      Nat.mod_eq_of_lt (by omega)
    have hmant : (BitVec.ofNat 52 m).toNat = m - 2 ^ 52 := by
      show m % 2 ^ 52 = _
      omega
    have hlast : BitVec.ofNat 11 (q + 1075).toNat ≠ -1#11 := by
      intro h
      have hnat : (q + 1075).toNat = 2047 := hexp.symm.trans (congrArg BitVec.toNat h)
      omega
    have hzero : BitVec.ofNat 11 (q + 1075).toNat ≠ 0#11 := by
      intro h
      have hnat : (q + 1075).toNat = 0 := hexp.symm.trans (congrArg BitVec.toNat h)
      omega
    rw [if_pos hfull, if_neg hlast, if_neg hzero]
    congr 1
    · omega
    · omega
  · have hq : q = -1074 := h.full.resolve_left hfull
    subst hq
    have hmant : (BitVec.ofNat 52 m).toNat = m := Nat.mod_eq_of_lt (by omega)
    rw [if_neg hfull, if_neg (by decide), if_pos rfl, dif_pos (by omega)]
    congr 1

/-! ## 3. Finite floats -/

/-- The float with a sign, a mantissa and an exponent. -/
def toFloat (s : Sign) (m : Nat) (q : Int) (hm : 0 < m) : Float :=
  .ofModel (.pack (.finite s m q hm))

theorem unpack_toFloat (h : Canonical m q) (s : Sign) (hm : 0 < m) :
    (toFloat s m q hm).toModel.unpack = .finite s m q hm :=
  unpack_pack h s hm

/-- A float is what its sign, mantissa and exponent are packed to. -/
theorem eq_of_unpack {x : Float} {u : UnpackedFloat} (h : x.toModel.unpack = u) :
    x = .ofModel (.pack u) := by
  obtain ⟨⟨bits, valid⟩⟩ := x
  have hpack : u.pack .binary64 = bits.toBitVec := by
    rw [← h]
    exact pack_unpack_of_valid valid
  rw [Float.Model.pack]
  congr 2
  exact (congrArg UInt64.ofBitVec hpack).symm

/-- A float that is unpacked as a finite number is the float with that sign, mantissa and exponent. -/
theorem eq_toFloat {x : Float} (h : x.toModel.unpack = .finite s m q hm) :
    Canonical m q ∧ x = toFloat s m q hm :=
  ⟨canonical_of_unpack h, eq_of_unpack h⟩

end Binary

end Dashboards
