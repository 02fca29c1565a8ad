import Dashboards.Text.Octets

/-!
# Texts and their bytes

A text can be encoded if it is made of digits, or read from the bytes of a header with one character
for each of them.  A text is read back from its bytes in UTF-8, and a JSON text is recognised as one in
UTF-8 by the first two of them.
-/

namespace Dashboards

/-! ## 1. Texts that can be encoded -/

theorem unitChar_toNat (c : Char) : unitChar c.toNat = c := by
  have hvalid : c.toNat < 0xD800 ∨ 0xDFFF < c.toNat ∧ c.toNat < 0x110000 := c.valid
  rw [unitChar, if_neg (by omega), Char.ofNat_toNat]

theorem half?_of_lt {c : Char} (h : c.toNat < 0xDD800) : half? c = none := by
  rw [half?, if_neg (by omega)]

theorem isEncodable_iff {s : String} : isEncodable s = true ↔ ∀ c ∈ s.toList, half? c = none := by
  simp [isEncodable]

theorem isEncodable_append {s t : String} :
    isEncodable (s ++ t) = true ↔ isEncodable s = true ∧ isEncodable t = true := by
  simp only [isEncodable_iff, String.toList_append, List.forall_mem_append]

theorem half?_of_mem_toDigits {n : Nat} {c : Char} (h : c ∈ Nat.toDigits 16 n) : half? c = none := by
  have hdigit : ∀ d < 16, half? (Nat.digitChar d) = none := by decide
  induction n using Nat.strongRecOn with
  | ind n ih =>
    rw [Nat.toDigits_eq_if (by decide)] at h
    split at h
    · obtain rfl := List.mem_singleton.1 h
      exact hdigit n ‹_›
    · rcases List.mem_append.1 h with h | h
      · exact ih (n / 16) (by omega) h
      · obtain rfl := List.mem_singleton.1 h
        exact hdigit _ (Nat.mod_lt n (by decide))

/-- Hexadecimal digits behind zeros. -/
theorem isEncodable_padded (zeros n : Nat) :
    isEncodable (String.ofList (List.replicate zeros '0' ++ Nat.toDigits 16 n)) = true := by
  rw [isEncodable_iff, String.toList_ofList]
  intro c hc
  rcases List.mem_append.1 hc with hc | hc
  · rw [List.eq_of_mem_replicate hc]
    decide
  · exact half?_of_mem_toDigits hc

theorem isEncodable_natText (n : Nat) : isEncodable (toString n) = true := by
  rw [isEncodable_iff, Nat.toString_eq_ofList_toDigits, String.toList_ofList]
  intro c hc
  have hdigit := Nat.isDigit_of_mem_toDigits (by decide) (by decide) hc
  rw [Char.isDigit, Bool.and_eq_true, decide_eq_true_iff, decide_eq_true_iff] at hdigit
  exact half?_of_lt (Nat.lt_of_le_of_lt hdigit.2 (by decide))

theorem isEncodable_intText (n : Int) : isEncodable (toString n) = true := by
  cases n with
  | ofNat n => exact isEncodable_natText n
  | negSucc n => exact isEncodable_append.2 ⟨by decide, isEncodable_natText (n + 1)⟩

namespace Octets

/-- Every character that one byte stands for can be encoded. -/
theorem isEncodable_latin (bytes : List UInt8) : isEncodable (latin bytes) = true := by
  rw [isEncodable_iff, latin, String.toList_ofList]
  intro c hc
  obtain ⟨b, -, rfl⟩ := List.mem_map.1 hc
  have hb := b.toNat_lt
  have hnat : (Char.ofNat b.toNat).toNat = b.toNat := by
    rw [Char.ofNat, dif_pos (.inl (by omega))]
    rfl
  exact half?_of_lt (by omega)

/-! ## 2. Bytes that lead a sequence, and bytes that follow -/

theorem lead?_two {bits : Nat} (hlow : 2 ≤ bits) (hhigh : bits < 0x20) :
    lead? true (bits + 0xC0) = some (bits, 1, 0x80, 0xBF) := by
  rw [lead?, if_pos (by omega), Nat.add_sub_cancel]

theorem lead?_three : ∀ bits < 0x10,
    lead? true (bits + 0xE0) = some (bits, 2, if bits = 0 then 0xA0 else 0x80, 0xBF) := by decide

theorem lead?_four : ∀ bits < 5, lead? true (bits + 0xF0) =
    some (bits, 3, if bits = 0 then 0x90 else 0x80, if bits = 4 then 0x8F else 0xBF) := by decide

theorem le_of_lead? {halves : Bool} {b : Nat} {l : Nat × Nat × Nat × Nat}
    (h : lead? halves b = some l) : 0x80 ≤ b := by
  refine Nat.not_lt.1 fun hlow => ?_
  have hnone : lead? halves b = none := by
    unfold lead?
    repeat rw [if_neg (by omega)]
  rw [hnone] at h
  cases h

variable {low high code n b : Nat} {bs rest : List Nat}

theorem follow_cons (h : low ≤ b + 0x80 ∧ b + 0x80 ≤ high) (hb : b < 0x40) :
    follow low high code (n + 1) ((b + 0x80) :: bs) =
      follow 0x80 0xBF (code * 0x40 + b) n bs := by
  have hbits : (b + 0x80) % 0x40 = b := by omega
  rw [follow, if_pos h, hbits]

theorem follow_tail (hb : b < 0x40) :
    follow 0x80 0xBF code (n + 1) ((b + 0x80) :: bs) =
      follow 0x80 0xBF (code * 0x40 + b) n bs := follow_cons (by omega) hb

@[simp] theorem follow_zero : follow low high code 0 bs = (some code, bs) := by cases bs <;> rfl

theorem fromUtf8?_cons {bits count : Nat} (hlead : lead? true b = some (bits, count, low, high))
    (hfollow : follow low high bits count bs = (some code, rest)) :
    fromUtf8? (b :: bs) = (unitChar code :: ·) <$> fromUtf8? rest := by
  have hb := le_of_lead? hlead
  rw [fromUtf8?, if_neg (by omega), hlead]
  dsimp only
  rw [hfollow]

/-! ## 3. Texts in UTF-8 -/

theorem toNat_ofNat {n : Nat} (h : n < 0x100) : (UInt8.ofNat n).toNat = n :=
  UInt8.toNat_ofNat_of_lt' h

/-- A character is read back from its bytes, whatever follows them. -/
theorem fromUtf8?_append (c : Char) (rest : List Nat) :
    fromUtf8? ((String.utf8EncodeChar c).map (·.toNat) ++ rest) = (c :: ·) <$> fromUtf8? rest := by
  have hvalid : c.toNat < 0xD800 ∨ 0xDFFF < c.toNat ∧ c.toNat < 0x110000 := c.valid
  obtain ⟨v, hv⟩ : ∃ v, c.toNat = v := ⟨_, rfl⟩
  have hc : unitChar v = c := hv ▸ unitChar_toNat c
  rw [hv] at hvalid
  rw [String.utf8EncodeChar, show c.val.toNat = v from hv]
  split
  · rw [List.map_singleton, toNat_ofNat (by omega), List.singleton_append, fromUtf8?,
      if_pos (by omega), ← hv, Char.ofNat_toNat]
  split
  · have hcode : v / 64 % 0x20 * 0x40 + v % 0x40 = v := by omega
    simp only [List.map_cons, List.map_nil, List.cons_append, List.nil_append]
    rw [toNat_ofNat (by omega), toNat_ofNat (by omega), fromUtf8?_cons
      (lead?_two (by omega) (by omega)) ((follow_tail (by omega)).trans follow_zero), hcode, hc]
  split
  · have hcode : (v / 4096 % 0x10 * 0x40 + v / 64 % 0x40) * 0x40 + v % 0x40 = v := by omega
    simp only [List.map_cons, List.map_nil, List.cons_append, List.nil_append]
    rw [toNat_ofNat (by omega), toNat_ofNat (by omega), toNat_ofNat (by omega),
      fromUtf8?_cons (lead?_three _ (by omega))
        ((follow_cons (by split <;> omega) (by omega)).trans
          ((follow_tail (by omega)).trans follow_zero)), hcode, hc]
  · have hcode : ((v / 262144 % 8 * 0x40 + v / 4096 % 0x40) * 0x40 + v / 64 % 0x40) * 0x40 +
        v % 0x40 = v := by omega
    simp only [List.map_cons, List.map_nil, List.cons_append, List.nil_append]
    rw [toNat_ofNat (by omega), toNat_ofNat (by omega), toNat_ofNat (by omega),
      toNat_ofNat (by omega), fromUtf8?_cons (lead?_four _ (by omega))
        ((follow_cons (by split <;> split <;> omega) (by omega)).trans
          ((follow_tail (by omega)).trans ((follow_tail (by omega)).trans follow_zero))), hcode, hc]

/-- A text is read back from its bytes. -/
theorem fromUtf8?_ofText (s : String) : fromUtf8? (ofText s) = some s.toList := by
  rw [ofText, encoded]
  induction s.toList with
  | nil => rw [List.flatMap_nil, List.map_nil, fromUtf8?]
  | cons c cs ih => rw [List.flatMap_cons, List.map_append, fromUtf8?_append, ih]; rfl

/-- No mark stands in front of bytes of which the first one is a character. -/
theorem marks_find? {a : Nat} (ha : 0 < a ∧ a < 0x80) (bs : List Nat) :
    (marks.find? fun m => m.1.isPrefixOf (a :: bs)) = none := by
  rw [List.find?_eq_none]
  intro m hm
  simp only [marks, List.mem_cons, List.not_mem_nil, or_false] at hm
  obtain rfl | rfl | rfl | rfl | rfl := hm <;> simp <;> omega

/-- Bytes of which the first two are not zero are those of a text in UTF-8. -/
theorem unmarked_cons {a b : Nat} (ha : a ≠ 0) (hb : b ≠ 0) (bs : List Nat) :
    unmarked (a :: b :: bs) = .utf8 := by
  rcases bs with _ | ⟨c, _ | ⟨d, bs⟩⟩ <;> simp [unmarked, ha, hb]

/-- A text that starts with two characters in ASCII is read from its bytes as a JSON text. -/
theorem jsonChars?_ofText {s : String} {c d : Char} {cs : List Char} (hs : s.toList = c :: d :: cs)
    (hc : 0 < c.toNat ∧ c.toNat < 0x80) (hd : 0 < d.toNat ∧ d.toNat < 0x80) :
    jsonChars? (ofText s) = some s.toList := by
  have hone : ∀ {c : Char}, 0 < c.toNat ∧ c.toNat < 0x80 →
      (String.utf8EncodeChar c).map (·.toNat) = [c.toNat] := by
    intro c hc
    rw [String.utf8EncodeChar, show c.val.toNat = c.toNat from rfl, if_pos (by omega),
      List.map_singleton, toNat_ofNat (by omega)]
  have hbytes : ofText s =
      c.toNat :: d.toNat :: (cs.flatMap String.utf8EncodeChar).map (·.toNat) := by
    rw [ofText, encoded, hs]
    simp only [List.flatMap_cons, List.map_append, hone hc, hone hd, List.singleton_append]
  rw [jsonChars?, hbytes, marks_find? hc,
    unmarked_cons (Nat.ne_of_gt hc.1) (Nat.ne_of_gt hd.1), ← hbytes]
  exact fromUtf8?_ofText s

end Octets

end Dashboards
