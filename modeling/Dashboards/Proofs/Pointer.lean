import Dashboards.Pointer

/-!
# Indices and their numerals

A key of a pointer stands for an index of an array when it is a decimal numeral.  Every index has
one, the text that the number is printed as.
-/

namespace Dashboards

theorem head_toDigits_ne_zero {n : Nat} (hn : 0 < n) : (Nat.toDigits 10 n).head? ≠ some '0' := by
  induction n using Nat.strongRecOn with
  | _ n ih =>
    by_cases hlt : n < 10
    · rw [Nat.toDigits_of_lt_base hlt, List.head?_cons]
      intro hzero
      have := Nat.digitChar_eq_zero.1 (Option.some.inj hzero)
      omega
    · -- The last digit is cut off, which leaves the first one.
      rw [Nat.toDigits_of_base_le (by decide) (by omega), List.head?_append,
        Option.or_of_isSome (List.isSome_head?.2 Nat.toDigits_ne_nil)]
      exact ih (n / 10) (by omega) (by omega)

theorem isDigit_iff_toNat {c : Char} : c.isDigit = true ↔ 48 ≤ c.toNat ∧ c.toNat ≤ 57 := by
  rw [Char.isDigit, Bool.and_eq_true, decide_eq_true_eq, decide_eq_true_eq]
  exact Iff.rfl

/-- The decimal numeral of a number is read as that number. -/
theorem canonicalNumber?_toDigits (n : Nat) : canonicalNumber? (Nat.toDigits 10 n) = some n := by
  rcases Nat.eq_zero_or_pos n with rfl | hn
  · rfl
  have hdigits : ∀ d ∈ Nat.toDigits 10 n, d.isDigit = true := fun d hd =>
    Nat.isDigit_of_mem_toDigits (by decide) (by decide) hd
  have hhead := head_toDigits_ne_zero hn
  have hvalue : Nat.ofDigitChars 10 (Nat.toDigits 10 n) 0 = n := Nat.ofDigitChars_ten_toDigits
  cases hnumeral : Nat.toDigits 10 n with
  | nil => exact absurd hnumeral Nat.toDigits_ne_nil
  | cons c rest =>
    rw [hnumeral] at hdigits hhead hvalue
    obtain ⟨hc, hrest⟩ := List.forall_mem_cons.1 hdigits
    have hne : c ≠ '0' := fun hzero => hhead (congrArg some hzero)
    have hfirst : '1' ≤ c ∧ c ≤ '9' := by
      obtain ⟨hlow, hhigh⟩ := isDigit_iff_toNat.1 hc
      have hne' : c.toNat ≠ 48 := fun h => hne (Char.toNat_inj.1 h)
      exact ⟨show 49 ≤ c.toNat by omega, hhigh⟩
    have hsum : (c :: rest).foldl (fun n d => n * 10 + (d.toNat - 48)) 0 = n := by
      rw [Nat.ofDigitChars_eq_foldl] at hvalue
      simp only [Nat.mul_comm] at hvalue ⊢
      exact hvalue
    unfold canonicalNumber?
    split
    · exact absurd (List.cons.inj ‹_›).1 hne
    · rename_i c' rest' _ hcons
      obtain ⟨rfl, rfl⟩ := List.cons.inj hcons
      rw [if_pos ⟨hfirst.1, hfirst.2, List.all_eq_true.2 hrest⟩]
      exact congrArg some hsum
    · cases ‹_ = []›

/-- The text that an index is printed as stands for the index. -/
theorem indexOf?_toString (i : Nat) : indexOf? (toString i) = some i := by
  have hlist : (toString i).toList = Nat.toDigits 10 i := Nat.toList_repr
  unfold indexOf?
  rw [hlist]
  split
  · rename_i front hreverse
    -- A line break is no digit, so none is dropped.
    have hmem : '\n' ∈ Nat.toDigits 10 i := by
      rw [← List.mem_reverse, hreverse]
      exact List.mem_cons_self
    have := Nat.isDigit_of_mem_toDigits (by decide) (by decide) hmem
    cases this
  · exact canonicalNumber?_toDigits i

end Dashboards
