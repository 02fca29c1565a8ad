import Dashboards.Proofs.Decimal.Rounding

/-!
# The shortest decimal reads back

Whichever decimal is chosen for a float, it lies between the points half-way to the neighbours of that
float: the candidates are tried with comparisons of naturals, and the decimal that is taken where no
candidate is left keeps enough digits.
-/

namespace Dashboards

namespace Decimal

open Binary

/-- The rational number that a decimal stands for. -/
def value (d : Decimal) : ℚ := d.digits * 10 ^ d.exponent

/-! ## 1. Comparisons -/

section Compare

variable {a b : Nat} {i j : Int}

/-- The two naturals that are compared, as the two numbers on one scale. -/
theorem scaled_cast (a b : Nat) (i j : Int) :
    ((a * Nat.pow 10 i.toNat * Nat.pow 2 (-j).toNat : Nat) : ℚ) =
        a * 10 ^ i * (10 ^ (-i).toNat * 2 ^ (-j).toNat) ∧
      ((b * Nat.pow 2 j.toNat * Nat.pow 10 (-i).toNat : Nat) : ℚ) =
        b * 2 ^ j * (10 ^ (-i).toNat * 2 ^ (-j).toNat) := by
  have hi : (10 : ℚ) ^ (-i).toNat ≠ 0 := by positivity
  have hj : (2 : ℚ) ^ (-j).toNat ≠ 0 := by positivity
  rw [zpow_eq_div (by norm_num) i, zpow_eq_div (by norm_num) j]
  simp only [Nat.pow_eq]
  push_cast
  constructor <;> field_simp

theorem compareScaled_eq_lt :
    compareScaled a i b j = .lt ↔ (a : ℚ) * 10 ^ i < b * 2 ^ j := by
  obtain ⟨ha, hb⟩ := scaled_cast a b i j
  rw [compareScaled, Nat.compare_eq_lt, ← Nat.cast_lt (α := ℚ), ha, hb]
  exact mul_lt_mul_iff_left₀ (by positivity)

theorem compareScaled_eq_gt :
    compareScaled a i b j = .gt ↔ (b : ℚ) * 2 ^ j < a * 10 ^ i := by
  obtain ⟨ha, hb⟩ := scaled_cast a b i j
  rw [compareScaled, Nat.compare_eq_gt, ← Nat.cast_lt (α := ℚ), ha, hb]
  exact mul_lt_mul_iff_left₀ (by positivity)

theorem compareScaled_eq_eq :
    compareScaled a i b j = .eq ↔ (a : ℚ) * 10 ^ i = b * 2 ^ j := by
  obtain ⟨ha, hb⟩ := scaled_cast a b i j
  rw [compareScaled, Nat.compare_eq_eq, ← Nat.cast_inj (R := ℚ), ha, hb]
  exact mul_left_inj' (by positivity)

end Compare

/-! ## 2. Reading back -/

variable {m : Nat} {q : Int} {d : Decimal}

/-- The bounds are counted in quarters of the float's unit. -/
theorem quarters_eq (n : ℚ) (q : Int) : n * 2 ^ (q - 2) = n / 4 * 2 ^ q := by
  rw [zpow_sub₀ (by norm_num)]
  norm_num
  ring

theorem around_of_readsBack (hm : Canonical m q) (h : readsBack m q d = true) :
    Around m q d.value := by
  have hq := two_zpow_pos q
  have hvalue : d.value = d.value / 2 ^ q * 2 ^ q := (div_mul_cancel₀ _ hq.ne').symm
  unfold readsBack at h
  simp only [Bool.and_eq_true, Bool.or_eq_true, beq_iff_eq, compareScaled_eq_lt,
    compareScaled_eq_gt, compareScaled_eq_eq, decide_eq_true_eq, quarters_eq] at h
  obtain ⟨hlow, hhigh⟩ := h
  change _ < d.value ∨ _ ∧ d.value = _ at hlow
  change d.value < _ ∨ _ ∧ d.value = _ at hhigh
  rw [hvalue, mul_lt_mul_iff_left₀ hq, mul_left_inj' hq.ne'] at hlow hhigh
  have hhigh' : ((4 * m + 2 : Nat) : ℚ) / 4 = m + 1 / 2 := by
    push_cast
    ring
  rw [hhigh'] at hhigh
  by_cases hpower : m = Nat.pow 2 52 ∧ q > -1074
  · have hlow' : ((4 * m - 1 : Nat) : ℚ) / 4 = m - 1 / 4 := by
      have hpos := hm.pos
      rw [Nat.cast_sub (by omega)]
      push_cast
      ring
    rw [if_pos hpower, hlow'] at hlow
    have hle : (m : ℚ) - 1 / 4 ≤ d.value / 2 ^ q := by
      rcases hlow with hlt | ⟨-, heq⟩
      · exact hlt.le
      · exact heq.ge
    exact ⟨⟨.inl (by linarith), hhigh⟩, fun _ _ => hle⟩
  · have hlow' : ((4 * m - 2 : Nat) : ℚ) / 4 = m - 1 / 2 := by
      have hpos := hm.pos
      rw [Nat.cast_sub (by omega)]
      push_cast
      ring
    rw [if_neg hpower, hlow'] at hlow
    refine ⟨⟨hlow.imp_right (And.imp_right Eq.symm), hhigh⟩, fun hm52 hq' => ?_⟩
    exact absurd ⟨hm52, hq'⟩ hpower

/-- A unit in the last place of all digits is less than a quarter of the unit of any float. -/
theorem ten_zpow_le_quarter (hq : -1074 ≤ q) : (10 : ℚ) ^ (-350 : Int) ≤ 1 / 4 * 2 ^ q := by
  have hten : (10 : ℚ) ^ (-350 : Int) = ((10 ^ 10) ^ 35)⁻¹ := by
    rw [zpow_neg, ← pow_mul]
    exact congrArg (·⁻¹) (zpow_natCast (10 : ℚ) (10 * 35))
  have htwo : (2 : ℚ) ^ (-1155 : Int) = ((2 ^ 33) ^ 35)⁻¹ := by
    rw [zpow_neg, ← pow_mul]
    exact congrArg (·⁻¹) (zpow_natCast (2 : ℚ) (33 * 35))
  have hpow : ((2 : ℚ) ^ 33) ^ 35 ≤ (10 ^ 10) ^ 35 :=
    pow_le_pow_left₀ (by norm_num) (by norm_num) 35
  calc (10 : ℚ) ^ (-350 : Int) ≤ 2 ^ (-1155 : Int) := by
        rw [hten, htwo]
        exact inv_anti₀ (by positivity) hpow
    _ ≤ 2 ^ (q - 2) := zpow_le_zpow_right₀ (by norm_num) (by omega)
    _ = 1 / 4 * 2 ^ q := by
        rw [← one_mul ((2 : ℚ) ^ (q - 2)), quarters_eq]

/-- The float itself, counted in units of the last place of all digits. -/
theorem scaled_fraction (m : Nat) (q : Int) :
    ((fraction m q).1 * Nat.pow 10 350 : Nat) / ((fraction m q).2 : ℚ) * 10 ^ (-350 : Int) =
      m * 2 ^ q := by
  have hten : (10 : ℚ) ^ 350 * 10 ^ (-350 : Int) = 1 := by
    rw [zpow_neg]
    exact mul_inv_cancel₀ (by positivity)
  show ((m * Nat.pow 2 q.toNat * Nat.pow 10 350 : Nat) : ℚ) / (Nat.pow 2 (-q).toNat : Nat) * _ = _
  rw [zpow_eq_div (by norm_num) q]
  simp only [Nat.pow_eq, Nat.cast_mul, Nat.cast_pow, Nat.cast_ofNat]
  generalize (10 : ℚ) ^ 350 = t at hten
  generalize (10 : ℚ) ^ (-350 : Int) = u at hten
  calc (m : ℚ) * 2 ^ q.toNat * t / 2 ^ (-q).toNat * u
      = m * (2 ^ q.toNat / 2 ^ (-q).toNat) * (t * u) := by ring
    _ = m * (2 ^ q.toNat / 2 ^ (-q).toNat) := by rw [hten, mul_one]

/-- All digits down to a place below every float are close enough. -/
theorem around_allDigits (hm : Canonical m q) : Around m q (allDigits m q).value := by
  have hq := two_zpow_pos q
  have hunit := ten_zpow_le_quarter hm.least
  have hten : (0 : ℚ) < 10 ^ (-350 : Int) := by positivity
  have hscaled := scaled_fraction m q
  have hden : 0 < (fraction m q).2 := Nat.pow_pos (by omega)
  have hvalue : (allDigits m q).value =
      ((fraction m q).1 * Nat.pow 10 350 / (fraction m q).2 : Nat) * 10 ^ (-350 : Int) := rfl
  rw [hvalue]
  generalize (fraction m q).1 * Nat.pow 10 350 = a at hscaled
  generalize (fraction m q).2 = b at hscaled hden
  generalize (10 : ℚ) ^ (-350 : Int) = unit at *
  have hden' : (0 : ℚ) < b := Nat.cast_pos.2 hden
  have hle : ((a / b : Nat) : ℚ) ≤ a / b := by
    rw [le_div_iff₀ hden']
    exact_mod_cast Nat.div_mul_le_self a b
  have hlt : (a : ℚ) / b < (a / b : Nat) + 1 := by
    rw [div_lt_iff₀ hden', mul_comm]
    exact_mod_cast Nat.lt_mul_div_succ a hden
  have hhigh : ((a / b : Nat) : ℚ) * unit / 2 ^ q ≤ m := by
    rw [div_le_iff₀ hq, ← hscaled]
    exact mul_le_mul_of_nonneg_right hle hten.le
  have hlow : (m : ℚ) - 1 / 4 ≤ (a / b : Nat) * unit / 2 ^ q := by
    rw [le_div_iff₀ hq, sub_mul, ← hscaled]
    nlinarith
  exact ⟨⟨.inl (by linarith), .inl (by linarith)⟩, fun _ _ => hlow⟩

theorem readsBack_of_withDigits? {k : Int} {n : Nat} (h : withDigits? m q k n = some d) :
    readsBack m q d = true := by
  unfold withDigits? at h
  dsimp only at h
  split at h
  · cases h
    assumption
  · cases h
    assumption
  · cases h
  · split at h
    · cases h
      assumption
    · cases h
      assumption
    · split at h
      · cases h
        assumption
      · cases h
        assumption

theorem value_strip (steps : Nat) (d : Decimal) : (strip steps d).value = d.value := by
  induction steps generalizing d with
  | zero => rfl
  | succ steps ih =>
    rw [strip]
    split
    · rename_i hzero
      have hdigits : d.digits = d.digits / 10 * 10 := by
        simp only [Bool.and_eq_true, beq_iff_eq] at hzero
        omega
      have hcast : (d.digits : ℚ) = (d.digits / 10 : Nat) * 10 := by exact_mod_cast hdigits
      rw [ih, value, value, hcast, zpow_add_one₀ (by norm_num)]
      ring
    · rfl

/-- The shortest decimal rounds to the float that it was chosen for. -/
theorem around_shortest (hm : Canonical m q) : Around m q (shortest m q).value := by
  rw [shortest]
  cases hfewest : fewest? m q with
  | some d =>
    obtain ⟨n, -, hn⟩ := List.exists_of_findSome?_eq_some hfewest
    rw [Option.map_some, Option.getD_some, value_strip]
    exact around_of_readsBack hm (readsBack_of_withDigits? hn)
  | none =>
    rw [Option.map_none, Option.getD_none]
    exact around_allDigits hm

end Decimal

end Dashboards
