import Dashboards.Proofs.Decimal.Packing

/-!
# Floats from decimals

A decimal `d · 10^e` is made a float by a multiplication or a division, which is exact up to its one
rounding, whichever way is taken.  So every decimal around a float comes out as that float.
-/

open Float.Model Float.Model.UnpackedFloat

namespace Dashboards

namespace Binary

variable {m m₁ m₂ : Nat} {q e₁ e₂ : Int}

/-! ## 1. Products and quotients -/

theorem Around.mul (h : Around m q (m₁ * 2 ^ e₁ * (m₂ * 2 ^ e₂))) (hm : Canonical m q)
    (h₁ : 0 < m₁) (h₂ : 0 < m₂) (hfull : 2 ^ 52 ≤ m₁ * m₂) :
    UnpackedFloat.mul .binary64 (.finite .positive m₁ e₁ h₁) (.finite .positive m₂ e₂ h₂) =
      .finite .positive m q hm.pos := by
  have hx : (m₁ : ℚ) * 2 ^ e₁ * (m₂ * 2 ^ e₂) = (m₁ * m₂ : Nat) / (1 : Nat) * 2 ^ (e₁ + e₂) := by
    rw [zpow_add₀ (by norm_num)]
    push_cast
    ring
  have hbits : 52 ≤ (m₁ * m₂).log2 := (Nat.le_log2 (by omega)).2 hfull
  have htarget : e₁ + e₂ ≤
      Format.binary64.targetExponent (totalExponent (m₁ * m₂ / 1) (e₁ + e₂)) := by
    rw [targetExponent_binary64, Nat.div_one, totalExponent]
    omega
  rw [hx] at h
  have hround := h.roundWithAccuracy hm Nat.one_pos htarget .positive
  rw [Nat.div_one, Nat.mod_one] at hround
  exact hround

/-- The number of bits before the point, for a natural number that is scaled. -/
theorem scaled_bounds (hm : 0 < m) (q : Int) :
    (2 : ℚ) ^ (totalExponent m q - 1) ≤ m * 2 ^ q ∧ (m : ℚ) * 2 ^ q < 2 ^ totalExponent m q := by
  have hle := two_zpow_totalExponent_le (a := m) Nat.one_pos q (by rwa [Nat.div_one])
  have hlt := lt_two_zpow_totalExponent (a := m) Nat.one_pos q
  rw [Nat.div_one, Nat.cast_one, div_one] at hle hlt
  exact ⟨hle, hlt⟩

theorem Around.div (h : Around m q (m₁ * 2 ^ e₁ / (m₂ * 2 ^ e₂))) (hm : Canonical m q)
    (h₁ : 0 < m₁) (h₂ : 0 < m₂) :
    UnpackedFloat.div .binary64 (.finite .positive m₁ e₁ h₁) (.finite .positive m₂ e₂ h₂) =
      .finite .positive m q hm.pos := by
  -- The dividend is shifted to the left until the quotient has bits enough.
  let bits := totalExponent m₁ e₁ - totalExponent m₂ e₂
  let t := min (e₁ - e₂) (Format.binary64.targetExponent bits)
  let k := (e₁ - e₂ - t).toNat
  have hk : (k : Int) = e₁ - e₂ - t := Int.toNat_of_nonneg (by omega)
  have hx : (m₁ : ℚ) * 2 ^ e₁ / (m₂ * 2 ^ e₂) = (m₁ * 2 ^ k : Nat) / m₂ * 2 ^ t := by
    have hsplit : (2 : ℚ) ^ e₁ = 2 ^ k * 2 ^ t * 2 ^ e₂ := by
      rw [← zpow_natCast, hk, ← zpow_add₀ (by norm_num), ← zpow_add₀ (by norm_num)]
      congr 1
      omega
    have h₂' : (m₂ : ℚ) ≠ 0 := Nat.cast_ne_zero.2 (by omega)
    have he₂ := (two_zpow_pos e₂).ne'
    rw [hsplit]
    push_cast
    field_simp
  have htarget : t ≤ Format.binary64.targetExponent (totalExponent (m₁ * 2 ^ k / m₂) t) := by
    have hlow : (2 : ℚ) ^ (bits - 1) ≤ m₁ * 2 ^ e₁ / (m₂ * 2 ^ e₂) := by
      have hpos : (0 : ℚ) < m₂ * 2 ^ e₂ := mul_pos (Nat.cast_pos.2 h₂) (two_zpow_pos e₂)
      rw [le_div_iff₀ hpos]
      calc (2 : ℚ) ^ (bits - 1) * (m₂ * 2 ^ e₂)
          ≤ 2 ^ (bits - 1) * 2 ^ totalExponent m₂ e₂ :=
            mul_le_mul_of_nonneg_left (scaled_bounds h₂ e₂).2.le (two_zpow_pos _).le
        _ = 2 ^ (totalExponent m₁ e₁ - 1) := by
            rw [← zpow_add₀ (by norm_num)]
            congr 1
            omega
        _ ≤ m₁ * 2 ^ e₁ := (scaled_bounds h₁ e₁).1
    have hlt := lt_two_zpow_totalExponent (a := m₁ * 2 ^ k) h₂ t
    rw [hx] at hlow
    have hbits := zpow_two_lt hlow hlt
    rw [targetExponent_binary64]
    have ht : t ≤ max (bits - 53) (-1074) := min_le_right _ _
    omega
  rw [hx] at h
  have hround := h.roundWithAccuracy hm h₂ htarget .positive
  rw [← Nat.shiftLeft_eq] at hround
  exact hround

/-! ## 2. Decimals of the model -/

theorem ten_zpow_pos (e : Int) : (0 : ℚ) < 10 ^ e := zpow_pos (by norm_num) e

theorem two_zpow_le_ten_zpow {e : Int} (he : 0 ≤ e) : (2 : ℚ) ^ e ≤ 10 ^ e :=
  zpow_le_zpow_left₀ he (by norm_num) (by norm_num)

theorem ten_zpow_le_two_zpow {e : Int} (he : e ≤ 0) : (10 : ℚ) ^ e ≤ 2 ^ e := by
  have hle := two_zpow_le_ten_zpow (e := -e) (by omega)
  rw [zpow_neg, zpow_neg] at hle
  exact (inv_le_inv₀ (two_zpow_pos e) (ten_zpow_pos e)).1 hle

theorem Around.ge {x : ℚ} (h : Around m q x) (hm : Canonical m q) : 2 ^ (q - 1) ≤ x := by
  have hy := h.nearTo.bounds.1
  have hm' : (1 : ℚ) ≤ m := by exact_mod_cast hm.pos
  have hhalf : 1 / 2 ≤ x / 2 ^ q := by linarith
  have hx := (le_div_iff₀ (two_zpow_pos q)).1 hhalf
  rw [zpow_sub_one₀ (by norm_num)]
  linarith

/-- A decimal around a float is neither too large nor too small to be looked at. -/
theorem Around.decimal_bounds {d : Nat} {e : Int} (h : Around m q (d * 10 ^ e))
    (hm : Canonical m q) : 0 < d ∧ e ≤ 2048 ∧ -(2048 + (d.log2 : Int)) ≤ e := by
  have hpos := h.pos hm
  have hgreatest := hm.greatest
  have hleast := hm.least
  have hd : 0 < d := by
    rcases Nat.eq_zero_or_pos d with hzero | hd
    · rw [hzero, Nat.cast_zero, zero_mul] at hpos
      exact absurd hpos (lt_irrefl 0)
    · exact hd
  refine ⟨hd, ?_, ?_⟩
  · by_contra he
    have hle : (2 : ℚ) ^ e ≤ d * 10 ^ e := by
      have hd' : (1 : ℚ) ≤ d := by exact_mod_cast hd
      have h10 := two_zpow_le_ten_zpow (e := e) (by omega)
      have hten := ten_zpow_pos e
      nlinarith
    have hbits := zpow_two_lt hle (h.lt hm)
    omega
  · by_contra he
    have hlt : (d : ℚ) * 10 ^ e < 2 ^ ((d.log2 : Int) + 1 + e) := by
      have hd' : (d : ℚ) < 2 ^ ((d.log2 : Int) + 1) := by exact_mod_cast Nat.lt_log2_self
      have h10 := ten_zpow_le_two_zpow (e := e) (by omega)
      have htwo := two_zpow_pos e
      rw [zpow_add₀ (by norm_num)]
      calc (d : ℚ) * 10 ^ e ≤ d * 2 ^ e := mul_le_mul_of_nonneg_left h10 (Nat.cast_nonneg d)
        _ < 2 ^ ((d.log2 : Int) + 1) * 2 ^ e := mul_lt_mul_of_pos_right hd' htwo
    have hbits := zpow_two_lt (h.ge hm) hlt
    omega

theorem Around.ofScientific {d : Nat} {e : Int} (h : Around m q (d * 10 ^ e))
    (hm : Canonical m q) :
    UnpackedFloat.ofScientific .binary64 d e = .finite .positive m q hm.pos := by
  obtain ⟨hd, hlarge, hsmall⟩ := h.decimal_bounds hm
  rw [UnpackedFloat.ofScientific, dif_neg (by omega), if_neg (by show ¬ e > 2 ^ 11; omega),
    if_neg (by show ¬ e < -(2 ^ 11 + (d.log2 : Int)); omega)]
  split
  · rename_i he
    have hx : (d : ℚ) * (10 : ℚ) ^ e =
        (d <<< 53 : Nat) * 2 ^ (-53 : Int) * ((10 ^ e.toNat : Nat) * 2 ^ (0 : Int)) := by
      rw [Nat.shiftLeft_eq]
      push_cast
      rw [← zpow_natCast (10 : ℚ) e.toNat, Int.toNat_of_nonneg he, mul_one]
      congr 1
      rw [zpow_neg, mul_assoc]
      norm_num
    have hfull : 2 ^ 52 ≤ d <<< 53 * 10 ^ e.toNat := by
      have hten : 0 < 10 ^ e.toNat := Nat.pow_pos (by omega)
      rw [Nat.shiftLeft_eq]
      nlinarith
    rw [hx] at h
    exact h.mul hm _ _ hfull
  · rename_i he
    have hx : (d : ℚ) * (10 : ℚ) ^ e =
        d * 2 ^ (0 : Int) / ((10 ^ (-e).toNat : Nat) * 2 ^ (0 : Int)) := by
      push_cast
      rw [← zpow_natCast (10 : ℚ) (-e).toNat, Int.toNat_of_nonneg (by omega), zpow_neg]
      norm_num
    rw [hx] at h
    exact h.div hm _ _

/-! ## 3. Decimals of floats -/

/-- A natural number of at most 53 bits is a float. -/
theorem ofNat_exact {d : Nat} (hd : 0 < d) (hlt : d < 2 ^ 53) :
    ∃ (m : Nat) (q : Int) (hm : 0 < m), Canonical m q ∧ (m : ℚ) * 2 ^ q = d ∧ 2 ^ 52 ≤ m ∧
      UnpackedFloat.ofNat .binary64 d = .finite .positive m q hm := by
  have hbits : d.log2 < 53 := (Nat.log2_lt (Nat.ne_of_gt hd)).2 hlt
  obtain ⟨k, hk⟩ : ∃ k, d.log2 + k = 52 := ⟨52 - d.log2, by omega⟩
  have hfull : 2 ^ 52 ≤ d * 2 ^ k := by
    rw [← hk, Nat.pow_add]
    exact Nat.mul_le_mul_right _ (Nat.log2_self_le (Nat.ne_of_gt hd))
  have hlt' : d * 2 ^ k < 2 ^ 53 := by
    rw [show 53 = d.log2 + 1 + k by omega, Nat.pow_add]
    exact Nat.mul_lt_mul_of_pos_right Nat.lt_log2_self (Nat.two_pow_pos k)
  have hm : Canonical (d * 2 ^ k) (-(k : Int)) :=
    ⟨by omega, hlt', by omega, by omega, .inl hfull⟩
  refine ⟨d * 2 ^ k, -(k : Int), hm.pos, hm, ?_, hfull, ?_⟩
  · push_cast
    rw [zpow_neg, zpow_natCast, mul_assoc, mul_inv_cancel₀ (by positivity), mul_one]
  · have htarget : Format.binary64.targetExponent (totalExponent d 0) = -(k : Int) := by
      rw [targetExponent_binary64, totalExponent]
      omega
    have haround : Around (d * 2 ^ k) (-(k : Int))
        ((d * 2 ^ k : Nat) / (1 : Nat) * 2 ^ (-(k : Int))) := by
      rw [Nat.cast_one, div_one]
      exact around_self _ _
    have hexact : -(k : Int) ≤
        Format.binary64.targetExponent (totalExponent (d * 2 ^ k / 1) (-(k : Int))) := by
      have hlog : 52 ≤ (d * 2 ^ k).log2 := (Nat.le_log2 (by omega)).2 hfull
      rw [targetExponent_binary64, Nat.div_one, totalExponent]
      omega
    have hround := haround.roundWithAccuracy hm Nat.one_pos hexact .positive
    rw [Nat.div_one, Nat.mod_one] at hround
    rw [UnpackedFloat.ofNat, UnpackedFloat.ofInt, UnpackedFloat.normalize,
      Int.compare_eq_gt.2 (by omega)]
    show UnpackedFloat.round .binary64 .positive d 0 = _
    rw [UnpackedFloat.round, htarget, decreaseExponent,
      show (0 - -(k : Int)).toNat = k by omega, Nat.shiftLeft_eq]
    show UnpackedFloat.roundWithAccuracy .binary64 .positive (d * 2 ^ k) (0 - (k : Int)) .exact = _
    rw [Int.zero_sub]
    exact hround

/-- Whether an unpacked float is a natural number. -/
def isNat (n : Nat) : UnpackedFloat → Bool
  | .finite .positive m q _ => m * 2 ^ q.toNat == n * 2 ^ (-q).toNat
  | _ => false

theorem exists_of_isNat {n : Nat} {f : UnpackedFloat} (h : isNat n f = true) :
    ∃ (m : Nat) (q : Int) (hm : 0 < m), (m : ℚ) * 2 ^ q = n ∧ f = .finite .positive m q hm := by
  unfold isNat at h
  split at h
  · rename_i m q hm
    have heq : (m : ℚ) * 2 ^ q.toNat = n * 2 ^ (-q).toNat := by exact_mod_cast eq_of_beq h
    refine ⟨m, q, hm, ?_, rfl⟩
    rw [zpow_eq_div (by norm_num), ← mul_div_assoc, heq, mul_div_assoc, div_self (by positivity),
      mul_one]
  · cases h

/-- The powers of ten in the table are exact. -/
theorem isNat_powersOfTen : ∀ k : Fin 23,
    isNat (10 ^ (k : Nat)) Float.exactlyRepresentablePowersOfTen[k].toModel.unpack = true := by
  decide +kernel

theorem unpack_toFloat_toUInt64 {d : Nat} (hd : 0 < d) (hlt : d < 2 ^ 53) :
    ∃ (m : Nat) (q : Int) (hm : 0 < m), (m : ℚ) * 2 ^ q = d ∧ 2 ^ 52 ≤ m ∧
      d.toUInt64.toFloat.toModel.unpack = .finite .positive m q hm := by
  obtain ⟨m, q, hm, hcanonical, hvalue, hfull, hnat⟩ := ofNat_exact hd hlt
  refine ⟨m, q, hm, hvalue, hfull, ?_⟩
  have hd64 : d.toUInt64.toNat = d := Nat.mod_eq_of_lt (by omega)
  show UnpackedFloat.unpack .binary64
    (UnpackedFloat.pack .binary64 (UnpackedFloat.ofNat .binary64 d.toUInt64.toNat)) = _
  rw [hd64, hnat]
  exact unpack_pack hcanonical .positive hm

section Operations

variable {x y : Float} {h₁ : 0 < m₁} {h₂ : 0 < m₂}
  (hx : x.toModel.unpack = .finite .positive m₁ e₁ h₁)
  (hy : y.toModel.unpack = .finite .positive m₂ e₂ h₂)

include hx hy

theorem Around.float_mul (h : Around m q (m₁ * 2 ^ e₁ * (m₂ * 2 ^ e₂))) (hm : Canonical m q)
    (hfull : 2 ^ 52 ≤ m₁ * m₂) : x * y = toFloat .positive m q hm.pos := by
  show Float.ofModel (.pack (UnpackedFloat.mul .binary64 x.toModel.unpack y.toModel.unpack)) = _
  rw [hx, hy, h.mul hm h₁ h₂ hfull]
  rfl

theorem Around.float_div (h : Around m q (m₁ * 2 ^ e₁ / (m₂ * 2 ^ e₂))) (hm : Canonical m q) :
    x / y = toFloat .positive m q hm.pos := by
  show Float.ofModel (.pack (UnpackedFloat.div .binary64 x.toModel.unpack y.toModel.unpack)) = _
  rw [hx, hy, h.div hm h₁ h₂]
  rfl

end Operations

/-- A decimal around a float comes out as that float. -/
theorem Around.float_ofScientific {d k : Nat} {negative : Bool}
    (h : Around m q (d * 10 ^ (if negative then -(k : Int) else k))) (hm : Canonical m q) :
    Float.ofScientific d negative k = toFloat .positive m q hm.pos := by
  rw [Float.ofScientific]
  split
  · -- Small digits and a small power of ten are floats, so that one operation does it.
    rename_i hfast
    obtain ⟨hd53, hk⟩ := hfast
    obtain ⟨hd, -⟩ := h.decimal_bounds hm
    obtain ⟨m₁, q₁, h₁, hvalue₁, hfull, hdigits⟩ := unpack_toFloat_toUInt64 hd hd53
    obtain ⟨m₂, q₂, h₂, hvalue₂, hpower⟩ := exists_of_isNat (isNat_powersOfTen ⟨k, by omega⟩)
    push_cast at hvalue₂
    cases negative with
    | true =>
      have hdiv : Around m q (m₁ * 2 ^ q₁ / (m₂ * 2 ^ q₂)) := by
        rw [hvalue₁, hvalue₂, ← zpow_natCast, div_eq_mul_inv, ← zpow_neg]
        exact h
      exact hdiv.float_div hdigits hpower hm
    | false =>
      have hmul : Around m q (m₁ * 2 ^ q₁ * (m₂ * 2 ^ q₂)) := by
        rw [hvalue₁, hvalue₂, ← zpow_natCast]
        exact h
      exact hmul.float_mul hdigits hpower hm (Nat.le_trans hfull (Nat.le_mul_of_pos_right m₁ h₂))
  · have hsign : (if negative then Int.negOfNat k else Int.ofNat k) =
        if negative then -(k : Int) else k := by
      rw [Int.negOfNat_eq]
      rfl
    show Float.ofModel (.pack (UnpackedFloat.ofScientific .binary64 d
      (if negative then Int.negOfNat k else Int.ofNat k))) = _
    rw [hsign, h.ofScientific hm]
    rfl

end Binary

end Dashboards
