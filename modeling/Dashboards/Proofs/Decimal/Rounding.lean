import Mathlib.Algebra.Order.Field.Power
import Mathlib.Tactic.FieldSimp
import Mathlib.Tactic.Linarith
import Mathlib.Tactic.NormNum
import Mathlib.Tactic.Positivity
import Mathlib.Tactic.Ring
import Dashboards.Decimal.Shortest

/-!
# Rounding to the nearest float

A positive rational number is rounded to the float `m · 2^q` exactly if it lies between the points
half-way to the neighbours of that float.  The rounding of the float model shifts a quotient of
naturals to the right until 53 bits are left; what was shifted out decides the last bit.
-/

open Float.Model Float.Model.UnpackedFloat

namespace Dashboards

namespace Binary

/-! ## 1. Quotients of naturals -/

/-- The quotient `a / b` with its accuracy, as the float model keeps it. -/
def quotient (a b : Nat) : ExtendedMantissa :=
  .ofMantissaAndAccuracy (a / b) (accuracyOfFraction (a % b) b)

variable {a b : Nat}

theorem quotient_eq (hb : 0 < b) : quotient a b =
    ⟨a / b, decide (b ≤ 2 * (a % b)), decide (a % b ≠ 0 ∧ 2 * (a % b) ≠ b)⟩ := by
  unfold quotient accuracyOfFraction
  by_cases hr : a % b = 0
  · rw [if_pos hr, hr]
    simp [ExtendedMantissa.ofMantissaAndAccuracy, Nat.ne_of_gt hb]
  · rw [if_neg hr]
    rcases Nat.lt_trichotomy (2 * (a % b)) b with hlt | heq | hgt
    · rw [Nat.compare_eq_lt.2 hlt]
      simp [ExtendedMantissa.ofMantissaAndAccuracy, hr, Nat.ne_of_lt hlt, Nat.not_le.2 hlt]
    · rw [Nat.compare_eq_eq.2 heq]
      simp [ExtendedMantissa.ofMantissaAndAccuracy, heq]
    · rw [Nat.compare_eq_gt.2 hgt]
      simp [ExtendedMantissa.ofMantissaAndAccuracy, hr, Nat.ne_of_gt hgt, Nat.le_of_lt hgt]

theorem shiftRightOne_quotient (hb : 0 < b) :
    (quotient a b).shiftRightOne = quotient a (2 * b) := by
  have hlt : a % b < b := Nat.mod_lt a hb
  have hdiv : a / (2 * b) = a / b / 2 := by rw [Nat.div_div_eq_div_mul, Nat.mul_comm]
  -- The remainder of the doubled divisor has the last bit of the quotient in it.
  have hmod : a % (2 * b) = a % b + b * (a / b % 2) := by rw [Nat.mul_comm 2 b, Nat.mod_mul]
  rw [quotient_eq hb, quotient_eq (by omega : 0 < 2 * b), hdiv, hmod]
  unfold ExtendedMantissa.shiftRightOne
  rcases Nat.mod_two_eq_zero_or_one (a / b) with hbit | hbit
  · rw [hbit, Nat.mul_zero, Nat.add_zero]
    congr 1
    · simp
      omega
    · rw [← Bool.decide_or, decide_eq_decide]
      omega
  · rw [hbit, Nat.mul_one]
    congr 1
    · simp
    · rw [← Bool.decide_or, decide_eq_decide]
      omega

theorem shiftRight_quotient (hb : 0 < b) (n : Nat) :
    quotient a b >>> n = quotient a (2 ^ n * b) := by
  show n.repeat ExtendedMantissa.shiftRightOne (quotient a b) = _
  induction n with
  | zero => rw [Nat.pow_zero, Nat.one_mul]; rfl
  | succ n ih =>
    have hpos : 0 < 2 ^ n * b := Nat.mul_pos (Nat.two_pow_pos n) hb
    rw [Nat.repeat, ih, shiftRightOne_quotient hpos, Nat.pow_succ, Nat.mul_comm (2 ^ n) 2,
      Nat.mul_assoc]

/-- The points that are nearer to `r` than to any other natural number, and those half-way to the
next one if `r` is even. -/
def NearTo (r : Nat) (y : ℚ) : Prop :=
  ((r : ℚ) - 1 / 2 < y ∨ r % 2 = 0 ∧ (r : ℚ) - 1 / 2 = y) ∧
    (y < (r : ℚ) + 1 / 2 ∨ r % 2 = 0 ∧ y = (r : ℚ) + 1 / 2)

/-- The same, cleared of fractions. -/
theorem nearTo_div_iff (hb : 0 < b) {r : Nat} : NearTo r ((a : ℚ) / b) ↔
    (2 * (r * b) < 2 * a + b ∨ r % 2 = 0 ∧ 2 * (r * b) = 2 * a + b) ∧
      (2 * a < 2 * (r * b) + b ∨ r % 2 = 0 ∧ 2 * a = 2 * (r * b) + b) := by
  have hb' : (0 : ℚ) < b := Nat.cast_pos.2 hb
  have hlow : (r : ℚ) - 1 / 2 < a / b ↔ 2 * (r * b) < 2 * a + b := by
    rw [lt_div_iff₀ hb', ← Nat.cast_lt (α := ℚ)]
    push_cast
    constructor <;> intro h <;> linarith
  have hlow' : (r : ℚ) - 1 / 2 = a / b ↔ 2 * (r * b) = 2 * a + b := by
    rw [eq_div_iff hb'.ne', ← Nat.cast_inj (R := ℚ)]
    push_cast
    constructor <;> intro h <;> linarith
  have hhigh : (a : ℚ) / b < r + 1 / 2 ↔ 2 * a < 2 * (r * b) + b := by
    rw [div_lt_iff₀ hb', ← Nat.cast_lt (α := ℚ)]
    push_cast
    constructor <;> intro h <;> linarith
  have hhigh' : (a : ℚ) / b = r + 1 / 2 ↔ 2 * a = 2 * (r * b) + b := by
    rw [div_eq_iff hb'.ne', ← Nat.cast_inj (R := ℚ)]
    push_cast
    constructor <;> intro h <;> linarith
  rw [NearTo, hlow, hlow', hhigh, hhigh']

theorem roundedMantissa_ofMantissaAndAccuracy (m : Nat) (accuracy : Accuracy) :
    (ExtendedMantissa.ofMantissaAndAccuracy m accuracy).roundedMantissa =
      accuracy.roundToNearestEven m := by
  cases accuracy with
  | exact => rfl
  | inexact half => cases half <;> rfl

theorem roundedMantissa_quotient (hb : 0 < b) {r : Nat} (h : NearTo r ((a : ℚ) / b)) :
    (quotient a b).roundedMantissa = r := by
  have hr := (nearTo_div_iff hb).1 h
  have hlt : a % b < b := Nat.mod_lt a hb
  have hsplit : a = a / b * b + a % b := (Nat.div_add_mod' a b).symm
  -- The floor of the quotient is `r` or the number before it.
  have hle : r ≤ a / b + 1 := by
    by_contra hgt
    have hmul : (a / b + 2) * b ≤ r * b := Nat.mul_le_mul_right b (by omega)
    rw [Nat.add_mul] at hmul
    omega
  have hge : a / b ≤ r := by
    by_contra hgt
    have hmul : (r + 1) * b ≤ a / b * b := Nat.mul_le_mul_right b (by omega)
    rw [Nat.add_mul] at hmul
    omega
  have hcases : (r = a / b ∧ r * b = a / b * b) ∨ (r = a / b + 1 ∧ r * b = a / b * b + b) := by
    rcases Nat.lt_or_eq_of_le hge with hgt | heq
    · have hsucc : r = a / b + 1 := by omega
      exact .inr ⟨hsucc, by rw [hsucc, Nat.add_mul, Nat.one_mul]⟩
    · exact .inl ⟨heq.symm, by rw [heq]⟩
  rw [quotient, roundedMantissa_ofMantissaAndAccuracy, accuracyOfFraction]
  split
  · show a / b = r
    omega
  · rcases Nat.lt_trichotomy (2 * (a % b)) b with hhalf | hhalf | hhalf
    · rw [Nat.compare_eq_lt.2 hhalf]
      show a / b = r
      omega
    · rw [Nat.compare_eq_eq.2 hhalf]
      show a / b + a / b % 2 = r
      omega
    · rw [Nat.compare_eq_gt.2 hhalf]
      show a / b + 1 = r
      omega

/-! ## 2. Floats and the points that round to them -/

/-- A mantissa and an exponent as they stand in a finite float: all 53 bits are used, unless the
exponent is the least one. -/
structure Canonical (m : Nat) (q : Int) : Prop where
  pos : 0 < m
  lt : m < 2 ^ 53
  least : -1074 ≤ q
  greatest : q ≤ 971
  full : 2 ^ 52 ≤ m ∨ q = -1074

/-- The points that round to `m · 2^q`.  Below a power of two the next float is half as far away as
above it. -/
structure Around (m : Nat) (q : Int) (x : ℚ) : Prop where
  nearTo : NearTo m (x / 2 ^ q)
  closer : m = 2 ^ 52 → -1074 < q → (m : ℚ) - 1 / 4 ≤ x / 2 ^ q

variable {m : Nat} {q : Int} {x : ℚ}

theorem two_zpow_pos (q : Int) : (0 : ℚ) < 2 ^ q := zpow_pos (by norm_num) q

/-- A power with an exponent of any sign, as a quotient of two powers of naturals. -/
theorem zpow_eq_div {y : ℚ} (hy : y ≠ 0) (i : Int) : y ^ i = y ^ i.toNat / y ^ (-i).toNat := by
  rw [← zpow_natCast, ← zpow_natCast, ← zpow_sub₀ hy]
  congr 1
  omega

/-- The float itself is among them. -/
theorem around_self (m : Nat) (q : Int) : Around m q (m * 2 ^ q) := by
  have hm : (m : ℚ) * 2 ^ q / 2 ^ q = m := mul_div_cancel_right₀ _ (two_zpow_pos q).ne'
  constructor
  · rw [hm]
    exact ⟨.inl (by linarith), .inl (by linarith)⟩
  · intro _ _
    rw [hm]
    linarith

theorem NearTo.bounds {r : Nat} {y : ℚ} (h : NearTo r y) :
    (r : ℚ) - 1 / 2 ≤ y ∧ y ≤ (r : ℚ) + 1 / 2 := by
  obtain ⟨h | ⟨-, h⟩, h' | ⟨-, h'⟩⟩ := h
  · exact ⟨h.le, h'.le⟩
  · exact ⟨h.le, h'.le⟩
  · exact ⟨h.le, h'.le⟩
  · exact ⟨h.le, h'.le⟩

theorem Around.lt (h : Around m q x) (hm : Canonical m q) : x < 2 ^ (q + 53) := by
  have hy := h.nearTo.bounds.2
  have hm' : (m : ℚ) + 1 ≤ 2 ^ (53 : Int) := by exact_mod_cast hm.lt
  rw [zpow_add₀ (by norm_num), mul_comm, ← div_lt_iff₀ (two_zpow_pos q)]
  linarith

theorem Around.pos (h : Around m q x) (hm : Canonical m q) : 0 < x := by
  have hy := h.nearTo.bounds.1
  have hm' : (1 : ℚ) ≤ m := by exact_mod_cast hm.pos
  have hpos : 0 < x / 2 ^ q := by linarith
  exact (div_pos_iff_of_pos_right (two_zpow_pos q)).1 hpos

/-! ## 3. The exponent that a point is rounded at -/

theorem targetExponent_binary64 (t : Int) :
    Format.binary64.targetExponent t = max (t - 53) (-1074) := rfl

theorem lt_two_zpow_totalExponent (hb : 0 < b) (e : Int) :
    (a : ℚ) / b * 2 ^ e < 2 ^ totalExponent (a / b) e := by
  have hb' : (0 : ℚ) < b := Nat.cast_pos.2 hb
  have hlt : a < 2 ^ ((a / b).log2 + 1) * b := (Nat.div_lt_iff_lt_mul hb).1 Nat.lt_log2_self
  have hquotient : (a : ℚ) / b < 2 ^ ((a / b).log2 + 1) := by
    rw [div_lt_iff₀ hb']
    exact_mod_cast hlt
  calc (a : ℚ) / b * 2 ^ e < 2 ^ ((a / b).log2 + 1) * 2 ^ e :=
        mul_lt_mul_of_pos_right hquotient (two_zpow_pos e)
    _ = 2 ^ totalExponent (a / b) e := by
        rw [totalExponent, zpow_add₀ (by norm_num)]
        norm_cast

theorem two_zpow_totalExponent_le (hb : 0 < b) (e : Int) (hpos : 0 < a / b) :
    2 ^ (totalExponent (a / b) e - 1) ≤ (a : ℚ) / b * 2 ^ e := by
  have hb' : (0 : ℚ) < b := Nat.cast_pos.2 hb
  have hle : 2 ^ (a / b).log2 * b ≤ a :=
    (Nat.le_div_iff_mul_le hb).1 (Nat.log2_self_le (Nat.ne_of_gt hpos))
  have hquotient : 2 ^ (a / b).log2 ≤ (a : ℚ) / b := by
    rw [le_div_iff₀ hb']
    exact_mod_cast hle
  calc (2 : ℚ) ^ (totalExponent (a / b) e - 1) = 2 ^ (a / b).log2 * 2 ^ e := by
        rw [totalExponent, show ((a / b).log2 : Int) + 1 + e - 1 = (a / b).log2 + e by omega,
          zpow_add₀ (by norm_num)]
        norm_cast
    _ ≤ (a : ℚ) / b * 2 ^ e := mul_le_mul_of_nonneg_right hquotient (two_zpow_pos e).le

theorem zpow_two_lt {i j : Int} {x : ℚ} (hi : 2 ^ i ≤ x) (hj : x < 2 ^ j) : i < j :=
  (zpow_lt_zpow_iff_right₀ (by norm_num : (1 : ℚ) < 2)).1 (lt_of_le_of_lt hi hj)

/-- A point around a float is rounded at the float's exponent, or at the one before it if the point
is below the float and the float is a power of two. -/
theorem Around.targetExponent {e : Int} (h : Around m q (a / b * 2 ^ e)) (hm : Canonical m q)
    (hb : 0 < b) (he : e ≤ Format.binary64.targetExponent (totalExponent (a / b) e)) :
    Format.binary64.targetExponent (totalExponent (a / b) e) = q ∨
      m = 2 ^ 52 ∧ -1074 < q ∧ (a : ℚ) / b * 2 ^ e < 2 ^ (q + 52) ∧
        Format.binary64.targetExponent (totalExponent (a / b) e) = q - 1 := by
  have hleast := hm.least
  have hlow := h.nearTo.bounds.1
  have hlt := lt_two_zpow_totalExponent (a := a) hb e
  rw [targetExponent_binary64] at he ⊢
  -- Where the floor of the quotient is zero, the exponent is the least one.
  have hbound : ∀ k : Int, -1073 ≤ k → (a : ℚ) / b * 2 ^ e < 2 ^ k → totalExponent (a / b) e ≤ k := by
    intro k hk hx
    rcases Nat.eq_zero_or_pos (a / b) with hzero | hpos
    · have htotal : totalExponent (a / b) e = 1 + e := by
        rw [hzero, totalExponent]
        simp
      omega
    · have hbits := zpow_two_lt (two_zpow_totalExponent_le hb e hpos) hx
      omega
  have hle := hbound (q + 53) (by omega) (h.lt hm)
  generalize (a : ℚ) / b * 2 ^ e = x at *
  by_cases hfloor : 2 ^ (q + 52) ≤ x
  · have hbits := zpow_two_lt hfloor hlt
    exact .inl (by omega)
  by_cases hq : q = -1074
  · exact .inl (by omega)
  have hfull : 2 ^ 52 ≤ m := hm.full.resolve_right hq
  have hfull' : (2 : ℚ) ^ 52 ≤ m := by exact_mod_cast hfull
  have hbelow : x < 2 ^ (q + 52) := not_le.1 hfloor
  -- The point is below `2^(q + 52)`, so the mantissa is that power of two.
  have hm52 : m = 2 ^ 52 := by
    have hy : x / 2 ^ q < 2 ^ 52 := by
      rw [div_lt_iff₀ (two_zpow_pos q)]
      rwa [add_comm, zpow_add₀ (by norm_num)] at hbelow
    have hlt' : (m : ℚ) < 2 ^ 52 + 1 := by linarith
    have hlt'' : m < 2 ^ 52 + 1 := by exact_mod_cast hlt'
    omega
  have habove : 2 ^ (q + 51) ≤ x := by
    have hy : 2 ^ 51 ≤ x / 2 ^ q := by linarith
    rw [add_comm, zpow_add₀ (by norm_num)]
    exact (le_div_iff₀ (two_zpow_pos q)).1 hy
  have hbits := zpow_two_lt habove hlt
  have hbits' := hbound (q + 52) (by omega) hbelow
  exact .inr ⟨hm52, by omega, hbelow, by omega⟩

/-! ## 4. Rounding -/

theorem shiftToTargetExponent_quotient (hb : 0 < b) {e t : Int} (he : e ≤ t)
    (ht : Format.binary64.targetExponent (totalExponent (a / b) e) = t) :
    shiftToTargetExponent .binary64 (a / b) e (accuracyOfFraction (a % b) b) =
      (quotient a (2 ^ (t - e).toNat * b), t) := by
  rw [shiftToTargetExponent, ht]
  show (quotient a b >>> (t - e).toNat, e + (t - e).toNat) = _
  rw [shiftRight_quotient hb, Int.toNat_of_nonneg (by omega), show e + (t - e) = t by omega]

/-- A mantissa of at most 53 bits stays as it is. -/
theorem shiftToTargetExponent_canonical (hm : Canonical m q) :
    shiftToTargetExponent .binary64 m q .exact = (⟨m, false, false⟩, q) := by
  have hbits : m.log2 < 53 := (Nat.log2_lt (Nat.ne_of_gt hm.pos)).2 hm.lt
  have hle : Format.binary64.targetExponent (totalExponent m q) ≤ q := by
    have hleast := hm.least
    rw [targetExponent_binary64, totalExponent]
    omega
  rw [shiftToTargetExponent, shiftToExponent, Int.toNat_of_nonpos (by omega)]
  show ((⟨m, false, false⟩ : ExtendedMantissa), q + 0) = _
  rw [Int.add_zero]

/-- A mantissa that rounding has carried over into bit 54 is halved. -/
theorem shiftToTargetExponent_carried (hq : -1074 < q) :
    shiftToTargetExponent .binary64 (2 ^ 53) (q - 1) .exact = (⟨2 ^ 52, false, false⟩, q) := by
  have htarget : Format.binary64.targetExponent (totalExponent (2 ^ 53) (q - 1)) = q := by
    rw [targetExponent_binary64, totalExponent, Nat.log2_two_pow]
    omega
  rw [shiftToTargetExponent, htarget, shiftToExponent, show (q - (q - 1)).toNat = 1 by omega]
  show ((⟨2 ^ 53 / 2, 2 ^ 53 % 2 != 0, false⟩ : ExtendedMantissa), q - 1 + 1) = _
  rw [Int.sub_add_cancel]
  rfl

theorem nearTo_two_pow_53 {y : ℚ} (hlow : (2 : ℚ) ^ 52 - 1 / 4 ≤ y) (hlt : y < 2 ^ 52) :
    NearTo (2 ^ 53) (2 * y) := by
  refine ⟨?_, .inl ?_⟩
  · rcases hlow.lt_or_eq with h | h
    · refine .inl ?_
      push_cast
      linarith
    · refine .inr ⟨by norm_num, ?_⟩
      push_cast
      linarith
  · push_cast
    linarith

/-- A point around a float is rounded to it. -/
theorem Around.roundWithAccuracy {e : Int} (h : Around m q (a / b * 2 ^ e)) (hm : Canonical m q)
    (hb : 0 < b) (he : e ≤ Format.binary64.targetExponent (totalExponent (a / b) e)) (s : Sign) :
    UnpackedFloat.roundWithAccuracy .binary64 s (a / b) e (accuracyOfFraction (a % b) b) =
      .finite s m q hm.pos := by
  have hpos (n : Nat) : 0 < 2 ^ n * b := Nat.mul_pos (Nat.two_pow_pos n) hb
  -- What is left after the first shift, as a quotient.
  have hscaled (t : Int) (ht : e ≤ t) :
      (a : ℚ) / (2 ^ (t - e).toNat * b : Nat) = a / b * 2 ^ e / 2 ^ t := by
    have hsplit : (2 : ℚ) ^ t = 2 ^ e * 2 ^ (t - e).toNat := by
      rw [← zpow_natCast, Int.toNat_of_nonneg (by omega), ← zpow_add₀ (by norm_num)]
      congr 1
      omega
    have he' := (two_zpow_pos e).ne'
    rw [hsplit]
    push_cast
    field_simp
  rcases h.targetExponent hm hb he with ht | ⟨rfl, hq, hbelow, ht⟩
  · have hround : (quotient a (2 ^ (q - e).toNat * b)).roundedMantissa = m := by
      refine roundedMantissa_quotient (hpos _) ?_
      rw [hscaled q (ht ▸ he)]
      exact h.nearTo
    rw [UnpackedFloat.roundWithAccuracy, shiftToTargetExponent_quotient hb (ht ▸ he) ht]
    dsimp only
    rw [hround, shiftToTargetExponent_canonical hm]
    exact dif_neg (Nat.ne_of_gt hm.pos)
  · have hround : (quotient a (2 ^ (q - 1 - e).toNat * b)).roundedMantissa = 2 ^ 53 := by
      have hdouble : (a : ℚ) / b * 2 ^ e / 2 ^ (q - 1) = 2 * (a / b * 2 ^ e / 2 ^ q) := by
        rw [zpow_sub_one₀ (by norm_num)]
        field_simp
      have hclose := h.closer rfl hq
      push_cast at hclose
      refine roundedMantissa_quotient (hpos _) ?_
      rw [hscaled (q - 1) (ht ▸ he), hdouble]
      refine nearTo_two_pow_53 hclose ?_
      rwa [div_lt_iff₀ (two_zpow_pos q), ← zpow_natCast, ← zpow_add₀ (by norm_num), add_comm]
    rw [UnpackedFloat.roundWithAccuracy, shiftToTargetExponent_quotient hb (ht ▸ he) ht]
    dsimp only
    rw [hround, shiftToTargetExponent_carried hq]
    exact dif_neg (Nat.ne_of_gt hm.pos)

end Binary

end Dashboards
