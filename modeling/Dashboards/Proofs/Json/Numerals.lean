import Dashboards.Json.Token
import Dashboards.Json.Writer
import Dashboards.Proofs.Decimal.Scientific
import Dashboards.Proofs.Decimal.Shortest
import Dashboards.Proofs.Pointer

/-!
# Numbers that are written and read

The text of a number is one token, whatever may follow a value in a JSON text, and the token stands
for the number.  For a float that is so because its text is a decimal around it.
-/

namespace Dashboards

/-- A number that is no integer of too many digits. -/
def Number.Short : Number → Prop
  | .int n => (Nat.toDigits 10 n.natAbs).length ≤ Excess.digitLimit
  | .float _ | .undefined _ => True

namespace Json

/-! ## 1. Digits -/

/-- What may follow a value in a text: nothing, the next entry or the end of the collection. -/
def Ends (rest : List Char) : Prop := ∀ c ∈ rest.head?, c = ',' ∨ c = ']' ∨ c = '\x7d'

/-- What may follow a number in a text: nothing that would go on with it. -/
def Stops (rest : List Char) : Prop :=
  ∀ c ∈ rest.head?, c.isDigit = false ∧ c ≠ '.' ∧ c ≠ 'e' ∧ c ≠ 'E'

variable {ds rest : List Char}

theorem digitsValue_eq (ds : List Char) : digitsValue ds = Nat.ofDigitChars 10 ds 0 := by
  rw [Nat.ofDigitChars_eq_foldl, digitsValue]
  simp only [Nat.mul_comm]
  rfl

theorem digitsValue_toDigits (n : Nat) : digitsValue (Nat.toDigits 10 n) = n := by
  rw [digitsValue_eq, Nat.ofDigitChars_ten_toDigits]

theorem digitsValue_lt (h : ∀ d ∈ ds, d.isDigit = true) : digitsValue ds < 10 ^ ds.length := by
  induction ds using List.reverseRecOn with
  | nil => exact Nat.one_pos
  | append_singleton ds d ih =>
    have hds := ih fun d hd => h d (List.mem_append_left _ hd)
    have hd := isDigit_iff_toNat.1 (h d (List.mem_append_right _ List.mem_cons_self))
    have hvalue : digitsValue (ds ++ [d]) = digitsValue ds * 10 + (d.toNat - 48) :=
      List.foldl_append
    rw [hvalue, List.length_append, List.length_singleton, Nat.pow_succ]
    omega

theorem isDigit_of_mem_toDigits {n : Nat} : ∀ d ∈ Nat.toDigits 10 n, d.isDigit = true :=
  fun _ hd => Nat.isDigit_of_mem_toDigits (by decide) (by decide) hd

/-- Zeros in front change nothing. -/
theorem digitsValue_zeros_append (k : Nat) (ds : List Char) :
    digitsValue (List.replicate k '0' ++ ds) = digitsValue ds := by
  rw [digitsValue_eq, digitsValue_eq, Nat.ofDigitChars_append, Nat.ofDigitChars_replicate_zero,
    Nat.mul_zero]

/-- Zeros behind are powers of ten. -/
theorem digitsValue_append_zeros (ds : List Char) (k : Nat) :
    digitsValue (ds ++ List.replicate k '0') = digitsValue ds * 10 ^ k := by
  rw [digitsValue_eq, digitsValue_eq, Nat.ofDigitChars_append, Nat.ofDigitChars_replicate_zero,
    Nat.mul_comm]

theorem splitDigits_append (hds : ∀ d ∈ ds, d.isDigit = true)
    (hrest : ∀ c ∈ rest.head?, c.isDigit = false) : splitDigits (ds ++ rest) = (ds, rest) := by
  rw [splitDigits, List.takeWhile_append_of_pos hds, List.dropWhile_append_of_pos hds]
  cases rest with
  | nil => rw [List.takeWhile_nil, List.append_nil, List.dropWhile_nil]
  | cons c rest =>
    have hc : ¬ c.isDigit = true := by simp [hrest c rfl]
    rw [List.takeWhile_cons_of_neg hc, List.append_nil, List.dropWhile_cons_of_neg hc]

/-! ## 2. The parts of a number -/

/-- The whole part of a number: digits without a leading zero. -/
structure IsWhole (whole : List Char) : Prop where
  digits : ∀ d ∈ whole, d.isDigit = true
  nonempty : whole ≠ []
  noZero : whole.head? ≠ some '0' ∨ whole = ['0']

theorem isWhole_toDigits (n : Nat) : IsWhole (Nat.toDigits 10 n) := by
  refine ⟨isDigit_of_mem_toDigits, Nat.toDigits_ne_nil, ?_⟩
  rcases Nat.eq_zero_or_pos n with rfl | hn
  · exact .inr (Nat.toDigits_zero 10)
  · exact .inl (head_toDigits_ne_zero hn)

/-- The fraction of a number as it is written. -/
def fractionText (fraction : List Char) : List Char :=
  if fraction.isEmpty then [] else '.' :: fraction

/-- The power of ten of a number as it is written, with at least two digits. -/
def powerText : Option Int → List Char
  | none => []
  | some p =>
    let power := Nat.toDigits 10 p.natAbs
    'e' :: (if p < 0 then '-' else '+') :: (List.replicate (2 - power.length) '0' ++ power)

theorem splitFraction_append {fraction : List Char} (hf : ∀ d ∈ fraction, d.isDigit = true)
    (hrest : ∀ c ∈ rest.head?, c.isDigit = false ∧ c ≠ '.') :
    splitFraction (fractionText fraction ++ rest) = (fraction, rest) := by
  cases fraction with
  | nil =>
    show splitFraction rest = ([], rest)
    unfold splitFraction
    split
    · exact absurd rfl (hrest '.' rfl).2
    · rfl
  | cons d ds =>
    show (if (splitDigits ((d :: ds) ++ rest)).1.isEmpty then _
      else splitDigits ((d :: ds) ++ rest)) = _
    rw [splitDigits_append hf fun c hc => (hrest c hc).1]
    rfl

/-- Digits with zeros in front of them are digits. -/
theorem isDigit_of_mem_padded (hds : ∀ d ∈ ds, d.isDigit = true) (n : Nat) :
    ∀ c ∈ List.replicate n '0' ++ ds, c.isDigit = true := by
  intro c hc
  rcases List.mem_append.1 hc with hzero | hc
  · rw [List.eq_of_mem_replicate hzero]
    rfl
  · exact hds c hc

/-- How a power of ten may be written: not at all, or as a mark, a sign that may be missing, and
digits. -/
inductive PowerText : List Char → Option Int → Prop
  | none : PowerText [] none
  | some {mark : Char} {sign ds : List Char} (hmark : mark = 'e' ∨ mark = 'E')
      (hsign : sign = [] ∨ sign = ['+'] ∨ sign = ['-']) (hds : ∀ d ∈ ds, d.isDigit = true)
      (hne : ds ≠ []) : PowerText (mark :: (sign ++ ds))
        (some (if sign = ['-'] then -(digitsValue ds : Int) else digitsValue ds))

theorem powerText_spec (power? : Option Int) : PowerText (powerText power?) power? := by
  cases power? with
  | none => exact .none
  | some p =>
    have hdigits := isDigit_of_mem_padded (@isDigit_of_mem_toDigits p.natAbs)
      (2 - (Nat.toDigits 10 p.natAbs).length)
    have hne : List.replicate (2 - (Nat.toDigits 10 p.natAbs).length) '0' ++
        Nat.toDigits 10 p.natAbs ≠ [] := List.append_ne_nil_of_right_ne_nil _ Nat.toDigits_ne_nil
    by_cases hp : p < 0
    · have hpower := @PowerText.some 'e' ['-'] _ (.inl rfl) (.inr (.inr rfl)) hdigits hne
      have hvalue : -(p.natAbs : Int) = p := by omega
      rw [if_pos rfl, digitsValue_zeros_append, digitsValue_toDigits, hvalue] at hpower
      rw [powerText, if_pos hp]
      exact hpower
    · have hpower := @PowerText.some 'e' ['+'] _ (.inl rfl) (.inr (.inl rfl)) hdigits hne
      have hvalue : (p.natAbs : Int) = p := by omega
      rw [if_neg (by decide), digitsValue_zeros_append, digitsValue_toDigits, hvalue] at hpower
      rw [powerText, if_neg hp]
      exact hpower

theorem splitPower_append {power : List Char} {power? : Option Int} (h : PowerText power power?)
    (hrest : Stops rest) : splitPower (power ++ rest) = (power?, power.length, rest) := by
  cases h with
  | none =>
    show splitPower rest = (none, 0, rest)
    cases rest with
    | nil => rfl
    | cons c rest =>
      obtain ⟨-, -, he, hE⟩ := hrest c rfl
      have hmark : (c == 'e' || c == 'E') = false := by simp [he, hE]
      unfold splitPower
      dsimp only
      rw [hmark, Bool.false_and]
      exact if_neg Bool.false_ne_true
  | @some mark sign ds hmark hsign hds hne =>
    have hsplit : splitDigits (ds ++ rest) = (ds, rest) :=
      splitDigits_append hds fun c hc => (hrest c hc).1
    have hmarked : ((mark == 'e' || mark == 'E') && !ds.isEmpty) = true := by
      rcases hmark with rfl | rfl <;> simp [hne]
    obtain ⟨d, ds', rfl⟩ := List.exists_cons_of_ne_nil hne
    have hd := hds d List.mem_cons_self
    have hlength (n : Nat) : 1 + n + (d :: ds').length = (d :: ds').length + n + 1 := by omega
    -- Only a sign at the front is one: the first digit is none.
    rcases hsign with rfl | rfl | rfl
    · show splitPower (mark :: (d :: ds' ++ rest)) = _
      unfold splitPower
      dsimp only
      split
      · rename_i heq
        obtain rfl : d = '-' := (List.cons.inj heq).1
        cases hd
      · rename_i heq
        obtain rfl : d = '+' := (List.cons.inj heq).1
        cases hd
      · dsimp only
        rw [hsplit, if_pos hmarked]
        simp [Nat.add_comm]
    · show (if (mark == 'e' || mark == 'E') && !(splitDigits (d :: ds' ++ rest)).1.isEmpty then
        (some ((digitsValue (splitDigits (d :: ds' ++ rest)).1 : Int)),
          1 + 1 + (splitDigits (d :: ds' ++ rest)).1.length, (splitDigits (d :: ds' ++ rest)).2)
        else _) = _
      rw [hsplit, if_pos hmarked, hlength, if_neg (by decide)]
      rfl
    · show (if (mark == 'e' || mark == 'E') && !(splitDigits (d :: ds' ++ rest)).1.isEmpty then
        (some (-(digitsValue (splitDigits (d :: ds' ++ rest)).1 : Int)),
          1 + 1 + (splitDigits (d :: ds' ++ rest)).1.length, (splitDigits (d :: ds' ++ rest)).2)
        else _) = _
      rw [hsplit, if_pos hmarked, hlength, if_pos rfl]
      rfl

/-- The sign of a number as it is written. -/
def signText (negative : Bool) : List Char := if negative then ['-'] else []

theorem splitSign_append (negative : Bool) (hrest : ∀ c ∈ rest.head?, c ≠ '-') :
    splitSign (signText negative ++ rest) = (negative, rest) := by
  cases negative with
  | true => rfl
  | false =>
    show splitSign rest = (false, rest)
    unfold splitSign
    split
    · exact absurd rfl (hrest '-' rfl)
    · rfl

theorem splitWhole_append {whole : List Char} (hw : IsWhole whole)
    (hrest : ∀ c ∈ rest.head?, c.isDigit = false) : splitWhole (whole ++ rest) = (whole, rest) := by
  have hdigits := splitDigits_append hw.digits hrest
  rcases hw.noZero with hzero | rfl
  · unfold splitWhole
    split
    · rename_i rest' hcons
      cases whole with
      | nil => exact absurd rfl hw.nonempty
      | cons c ds => exact absurd (congrArg some (List.cons.inj hcons).1) hzero
    · exact hdigits
  · rfl

theorem Ends.stops (h : Ends rest) : Stops rest := by
  intro c hc
  rcases h c hc with rfl | rfl | rfl <;> decide

/-! ## 3. Numbers as tokens -/

/-- A number as it is written. -/
def numeral (negative : Bool) (whole fraction : List Char) (power? : Option Int) : List Char :=
  signText negative ++ (whole ++ (fractionText fraction ++ powerText power?))

/-- What a written number stands for: an integer, unless it has a fraction or a power. -/
def numeralToken (negative : Bool) (whole fraction : List Char) (power? : Option Int) : Token :=
  if fraction.isEmpty && power?.isNone then integerToken negative whole
  else
    let x := decimalFloat whole fraction (power?.getD 0)
    .scalar (.ofFloat (if negative then -x else x))

variable {whole fraction power : List Char} {power? : Option Int}

theorem PowerText.head_append (hp : PowerText power power?) (hrest : Stops rest) :
    ∀ c ∈ (power ++ rest).head?, c.isDigit = false ∧ c ≠ '.' := by
  cases hp with
  | none => exact fun c hc => ⟨(hrest c hc).1, (hrest c hc).2.1⟩
  | some hmark hsign hds hne =>
    intro c hc
    obtain rfl := Option.some.inj hc
    rcases hmark with rfl | rfl <;> decide

theorem head_fractionText_append (fraction : List Char) (hp : PowerText power power?)
    (hrest : Stops rest) :
    ∀ c ∈ (fractionText fraction ++ (power ++ rest)).head?, c.isDigit = false := by
  cases fraction with
  | nil => exact fun c hc => (hp.head_append hrest c hc).1
  | cons d ds =>
    intro c hc
    obtain rfl : '.' = c := Option.some.inj hc
    decide

theorem IsWhole.head_append (hw : IsWhole whole) (cs : List Char) :
    ∃ d ds, whole ++ cs = d :: ds ∧ d.isDigit = true := by
  cases whole with
  | nil => exact absurd rfl hw.nonempty
  | cons d ds => exact ⟨d, ds ++ cs, rfl, hw.digits d List.mem_cons_self⟩

theorem length_number (negative : Bool) (whole fraction power : List Char) :
    (signText negative ++ (whole ++ (fractionText fraction ++ power))).length =
      (if negative then 1 else 0) + whole.length + (if fraction.isEmpty then 0 else 1) +
        fraction.length + power.length := by
  have hs : (signText negative).length = if negative then 1 else 0 := by cases negative <;> rfl
  have hf : (fractionText fraction).length =
      (if fraction.isEmpty then 0 else 1) + fraction.length := by
    cases fraction with
    | nil => rfl
    | cons d ds => exact Nat.add_comm _ _
  simp only [List.length_append, hs, hf]
  omega

/-- The parts of a number are found again. -/
theorem splitNumber?_append (negative : Bool) (hw : IsWhole whole)
    (hf : ∀ d ∈ fraction, d.isDigit = true) (hp : PowerText power power?) (hrest : Stops rest) :
    splitNumber? (signText negative ++ (whole ++ (fractionText fraction ++ power)) ++ rest) =
      some (numeralToken negative whole fraction power?,
        (signText negative ++ (whole ++ (fractionText fraction ++ power))).length) := by
  have hsign : splitSign (signText negative ++ (whole ++ (fractionText fraction ++ power)) ++
      rest) = (negative, whole ++ (fractionText fraction ++ (power ++ rest))) := by
    simp only [List.append_assoc]
    refine splitSign_append negative fun c hc => ?_
    obtain ⟨d, ds, hcons, hd⟩ := hw.head_append (fractionText fraction ++ (power ++ rest))
    rw [hcons] at hc
    obtain rfl : d = c := Option.some.inj hc
    rintro rfl
    cases hd
  have hwhole := splitWhole_append hw (head_fractionText_append fraction hp hrest)
  have hfraction := splitFraction_append hf (hp.head_append hrest)
  have hpower := splitPower_append hp hrest
  unfold splitNumber?
  rw [hsign]
  dsimp only
  rw [hwhole]
  dsimp only
  rw [hfraction]
  dsimp only
  rw [hpower]
  dsimp only
  rw [← length_number, if_neg (by simp [hw.nonempty]), numeralToken]
  split <;> rfl

/-- The first two characters of a word are no digits. -/
theorem head_words : ∀ w ∈ words, ∃ a b l, w.1.toList = a :: b :: l ∧
    a.isDigit = false ∧ b.isDigit = false := by
  have hheads : ∀ w ∈ words,
      1 < w.1.toList.length ∧ (w.1.toList.take 2).any Char.isDigit = false := by
    decide
  intro w hw
  obtain ⟨hlength, hdigits⟩ := hheads w hw
  rcases hlist : w.1.toList with _ | ⟨a, _ | ⟨b, l⟩⟩ <;> rw [hlist] at hlength hdigits
  · cases hlength
  · exact absurd hlength (Nat.lt_irrefl 1)
  · exact ⟨a, b, l, rfl, by simpa using hdigits⟩

/-- No word begins like a number. -/
theorem splitWord?_numeral (negative : Bool) (hw : IsWhole whole) (cs : List Char) :
    splitWord? (signText negative ++ (whole ++ cs)) = none := by
  obtain ⟨d, ds, hcons, hd⟩ := hw.head_append cs
  rw [hcons, splitWord?, List.findSome?_eq_none_iff]
  intro w hw
  dsimp only
  rw [if_neg]
  intro hprefix
  obtain ⟨t, ht⟩ := List.isPrefixOf_iff_prefix.1 hprefix
  obtain ⟨a, b, l, hlist, ha, hb⟩ := head_words w hw
  rw [hlist] at ht
  cases negative with
  | false =>
    obtain rfl : a = d := (List.cons.inj ht).1
    rw [ha] at hd
    cases hd
  | true =>
    obtain rfl : b = d := (List.cons.inj (List.cons.inj ht).2).1
    rw [hb] at hd
    cases hd

/-- A text that begins neither with a space, a mark or a quote nor with a word is cut by its number. -/
theorem tokens_number {c : Char} {cs : List Char} {t : Token} {n : Nat}
    (hc : c = '-' ∨ c.isDigit = true) (hword : splitWord? (c :: cs) = none)
    (hnumber : splitNumber? (c :: cs) = some (t, n)) (p : Nat) :
    tokens p (c :: cs) = ⟨t, p⟩ :: tokens (p + n) (cs.drop (n - 1)) := by
  have hspace : ¬ isSpace c = true := by
    rintro h
    simp only [isSpace, Bool.or_eq_true, beq_iff_eq, or_assoc] at h
    rcases hc with rfl | hc
    · revert h
      decide
    · rcases h with rfl | rfl | rfl | rfl <;> cases hc
  have hmark : punctuation? c = none := by
    unfold punctuation?
    split <;> first | rfl | (rcases hc with hc | hc <;> cases hc)
  have hquote : ¬ (c == '"') = true := by
    rintro h
    rw [eq_of_beq h] at hc
    rcases hc with hc | hc <;> cases hc
  rw [tokens, if_neg hspace, hmark]
  dsimp only
  rw [if_neg hquote, hword, hnumber]

/-- A number begins with its sign or with a digit. -/
theorem IsWhole.signed_eq_cons (hw : IsWhole whole) (negative : Bool) (cs : List Char) :
    ∃ c cs', signText negative ++ (whole ++ cs) = c :: cs' ∧ (c = '-' ∨ c.isDigit = true) := by
  obtain ⟨d, ds, hcons, hd⟩ := hw.head_append cs
  rw [hcons]
  cases negative with
  | true => exact ⟨'-', d :: ds, rfl, .inl rfl⟩
  | false => exact ⟨d, ds, rfl, .inr hd⟩

/-- A number is one token. -/
theorem tokens_numeral (negative : Bool) (hw : IsWhole whole)
    (hf : ∀ d ∈ fraction, d.isDigit = true) (hp : PowerText power power?) (hrest : Stops rest)
    (p : Nat) :
    tokens p (signText negative ++ (whole ++ (fractionText fraction ++ power)) ++ rest) =
      ⟨numeralToken negative whole fraction power?, p⟩ ::
        tokens (p + (signText negative ++ (whole ++ (fractionText fraction ++ power))).length)
          rest := by
  have hword : splitWord? (signText negative ++ (whole ++ (fractionText fraction ++ power)) ++
      rest) = none := by
    simp only [List.append_assoc]
    exact splitWord?_numeral negative hw _
  have hnumber := splitNumber?_append negative hw hf hp hrest
  obtain ⟨c, cs, hcons, hc⟩ := hw.signed_eq_cons negative (fractionText fraction ++ power)
  rw [hcons, List.cons_append] at hword hnumber ⊢
  rw [tokens_number hc hword hnumber, List.length_cons, Nat.add_sub_cancel, List.drop_left]

/-! ## 4. Integers -/

theorem toList_numberText_int (n : Int) :
    (numberText (.int n)).toList = numeral (n < 0) (Nat.toDigits 10 n.natAbs) [] none := by
  cases n with
  | ofNat n =>
    have hsign : decide (Int.ofNat n < 0) = false :=
      decide_eq_false (Int.not_lt.2 (Int.natCast_nonneg n))
    rw [hsign]
    show n.repr.toList = [] ++ (Nat.toDigits 10 n ++ ([] ++ []))
    rw [Nat.toList_repr]
    simp
  | negSucc n =>
    rw [decide_eq_true (Int.negSucc_lt_zero n)]
    show ("-" ++ (n + 1).repr).toList = ['-'] ++ (Nat.toDigits 10 (n + 1) ++ ([] ++ []))
    rw [String.toList_append, Nat.toList_repr]
    simp

/-- The text of an integer is one token, as long as it is not too long to be read. -/
theorem tokens_int {n : Int} (hn : (Number.int n).Short) (hrest : Ends rest) (p : Nat) :
    ∃ p', tokens p ((numberText (.int n)).toList ++ rest) =
      ⟨.scalar (.num (.int n)), p⟩ :: tokens p' rest := by
  have htoken : numeralToken (n < 0) (Nat.toDigits 10 n.natAbs) [] none =
      .scalar (.num (.int n)) := by
    have hvalue : (if n < 0 then -(n.natAbs : Int) else n.natAbs) = n := by
      split <;> omega
    show integerToken (n < 0) (Nat.toDigits 10 n.natAbs) = _
    rw [integerToken, if_neg (Nat.not_lt.2 hn), digitsValue_toDigits]
    simp only [decide_eq_true_eq, hvalue]
    rfl
  have hnumeral := tokens_numeral (n < 0) (isWhole_toDigits n.natAbs)
    (fun d (hd : d ∈ []) => by cases hd) (powerText_spec none) hrest.stops p
  rw [htoken] at hnumeral
  rw [toList_numberText_int]
  exact ⟨_, hnumeral⟩

/-! ## 5. Layouts of decimals -/

theorem fractionText_of_ne_nil (h : fraction ≠ []) : fractionText fraction = '.' :: fraction := by
  rw [fractionText, if_neg (by simpa using h)]

/-- The parts that the text of a number is put together from.  One of them shows that it is a float. -/
structure Parts (text : List Char) (value : ℚ) (whole fraction : List Char) (power? : Option Int) :
    Prop where
  text_eq : text = whole ++ (fractionText fraction ++ powerText power?)
  isWhole : IsWhole whole
  isFraction : ∀ c ∈ fraction, c.isDigit = true
  isFloat : (fraction.isEmpty && power?.isNone) = false
  value_eq : (digitsValue (whole ++ fraction) : ℚ) * 10 ^ (power?.getD 0 - fraction.length) = value

section Layout

variable {ds : List Char} (hdigits : ∀ d ∈ ds, d.isDigit = true) (hhead : ds.head? ≠ some '0')
  (hne : ds ≠ []) {e : Int}

include hdigits hhead hne

/-- Leading digits of a number that is not zero are a whole part. -/
theorem isWhole_take {k : Nat} (hk : 0 < k) : IsWhole (ds.take k) := by
  obtain ⟨k, rfl⟩ := Nat.exists_eq_succ_of_ne_zero (Nat.ne_of_gt hk)
  cases ds with
  | nil => exact absurd rfl hne
  | cons d ds =>
    refine ⟨fun c hc => hdigits c (List.mem_of_mem_take hc), List.cons_ne_nil _ _, .inl ?_⟩
    exact hhead

omit hhead in
/-- Zeros stand between the point and the digits. -/
theorem parts_below (hpoint : (ds.length : Int) + e ≤ 0) :
    Parts ('0' :: '.' :: List.replicate (-((ds.length : Int) + e)).toNat '0' ++ ds)
      (digitsValue ds * 10 ^ e) ['0']
      (List.replicate (-((ds.length : Int) + e)).toNat '0' ++ ds) none := by
  have hfraction := List.append_ne_nil_of_right_ne_nil
    (List.replicate (-((ds.length : Int) + e)).toNat '0') hne
  refine ⟨?_, ⟨by simp, by simp, .inr rfl⟩, isDigit_of_mem_padded hdigits _, by simp [hne], ?_⟩
  · rw [fractionText_of_ne_nil hfraction]
    simp [powerText]
  · rw [show ['0'] = List.replicate 1 '0' from rfl, digitsValue_zeros_append,
      digitsValue_zeros_append, List.length_append, List.length_replicate]
    congr 2
    show (0 : Int) - _ = _
    push_cast
    omega

/-- Zeros stand between the digits and the point. -/
theorem parts_above (he : 0 ≤ e) :
    Parts (ds ++ List.replicate e.toNat '0' ++ ['.', '0']) (digitsValue ds * 10 ^ e)
      (ds ++ List.replicate e.toNat '0') ['0'] none := by
  refine ⟨?_, ⟨?_, ?_, .inl ?_⟩, by simp, rfl, ?_⟩
  · simp [fractionText, powerText]
  · intro c hc
    rcases List.mem_append.1 hc with hc | hzero
    · exact hdigits c hc
    · rw [List.eq_of_mem_replicate hzero]
      rfl
  · simp [hne]
  · rw [List.head?_append, Option.or_of_isSome (List.isSome_head?.2 hne)]
    exact hhead
  · have hten : (10 : ℚ) ^ e = 10 ^ e.toNat := by
      rw [← zpow_natCast, Int.toNat_of_nonneg he]
    rw [show ['0'] = List.replicate 1 '0' from rfl, digitsValue_append_zeros,
      digitsValue_append_zeros, hten]
    push_cast
    show _ * (10 : ℚ) ^ (0 - (1 : Int)) = _
    rw [Int.zero_sub, zpow_neg_one, mul_assoc, mul_inv_cancel₀ (by norm_num), mul_one]

/-- The point stands between two of the digits. -/
theorem parts_amid (hpoint : 0 < (ds.length : Int) + e) (he : e < 0) :
    Parts (ds.take ((ds.length : Int) + e).toNat ++ '.' :: ds.drop ((ds.length : Int) + e).toNat)
      (digitsValue ds * 10 ^ e) (ds.take ((ds.length : Int) + e).toNat)
      (ds.drop ((ds.length : Int) + e).toNat) none := by
  have hfraction : ds.drop ((ds.length : Int) + e).toNat ≠ [] := by
    simp
    omega
  refine ⟨?_, isWhole_take hdigits hhead hne (by omega),
    fun c hc => hdigits c (List.mem_of_mem_drop hc), by simpa using hfraction, ?_⟩
  · rw [fractionText_of_ne_nil hfraction]
    simp [powerText]
  · rw [List.take_append_drop, List.length_drop]
    congr 2
    show (0 : Int) - _ = _
    omega

/-- The first digit stands alone, and a power says where the point belongs. -/
theorem parts_powered (e : Int) :
    Parts (ds.take 1 ++ (if ds.length ≤ 1 then [] else '.' :: ds.drop 1) ++
        powerText (some ((ds.length : Int) + e - 1))) (digitsValue ds * 10 ^ e)
      (ds.take 1) (ds.drop 1) (some ((ds.length : Int) + e - 1)) := by
  have hfraction : fractionText (ds.drop 1) =
      if ds.length ≤ 1 then [] else '.' :: ds.drop 1 := by
    unfold fractionText
    congr 1
    rw [List.isEmpty_iff, List.drop_eq_nil_iff]
  refine ⟨?_, isWhole_take hdigits hhead hne Nat.one_pos,
    fun c hc => hdigits c (List.mem_of_mem_drop hc), by simp, ?_⟩
  · rw [hfraction, List.append_assoc]
  · have hpos : 0 < ds.length := List.length_pos_iff.2 hne
    rw [List.take_append_drop, List.length_drop]
    congr 2
    show (ds.length : Int) + e - 1 - _ = _
    omega

end Layout

/-- A decimal is laid out in one of four ways, with its value. -/
theorem parts_layout (d : Decimal) (hd : 0 < d.digits) :
    ∃ whole fraction power?, Parts d.layout.toList d.value whole fraction power? := by
  have hdigits := @isDigit_of_mem_toDigits d.digits
  have hhead := head_toDigits_ne_zero hd
  have hne : Nat.toDigits 10 d.digits ≠ [] := Nat.toDigits_ne_nil
  have hvalue : d.value = digitsValue (Nat.toDigits 10 d.digits) * 10 ^ d.exponent := by
    rw [digitsValue_toDigits, Decimal.value]
  rw [Decimal.layout, String.toList_ofList, hvalue]
  dsimp only
  generalize Nat.toDigits 10 d.digits = ds at *
  split
  · split
    · rename_i hpoint
      exact ⟨_, _, _, parts_below hdigits hne hpoint⟩
    · rename_i hpoint
      split
      · rename_i he
        exact ⟨_, _, _, parts_above hdigits hhead hne he⟩
      · rename_i he
        exact ⟨_, _, _, parts_amid hdigits hhead hne (by omega) (by omega)⟩
  · have hzeros (n : Nat) : (2 - (n : Int)).toNat = 2 - n := by omega
    have hpowered := parts_powered hdigits hhead hne d.exponent
    simp only [powerText] at hpowered
    rw [hzeros]
    exact ⟨_, _, _, by simpa using hpowered⟩

/-! ## 6. Floats -/

/-- Digits and a power that make a decimal around a float are read as that float. -/
theorem decimalFloat_of_around {m : Nat} {q : Int} {power : Int} (hm : Binary.Canonical m q)
    (h : Binary.Around m q
      ((digitsValue (whole ++ fraction) : ℚ) * 10 ^ (power - (fraction.length : Int)))) :
    decimalFloat whole fraction power = Binary.toFloat .positive m q hm.pos := by
  rw [decimalFloat]
  generalize power - (fraction.length : Int) = e at *
  refine Binary.Around.float_ofScientific ?_ hm
  have he : (if e < 0 then -(e.natAbs : Int) else e.natAbs) = e := by split <;> omega
  simp only [decide_eq_true_eq, he]
  exact h

theorem neg_toFloat {m : Nat} {q : Int} (hm : Binary.Canonical m q) :
    -Binary.toFloat .positive m q hm.pos = Binary.toFloat .negative m q hm.pos := by
  show Float.ofModel (.pack (Binary.toFloat .positive m q hm.pos).toModel.unpack.neg) = _
  rw [Binary.unpack_toFloat hm]
  rfl

/-- A sign and what it is put in front of are a number, as soon as the digits are. -/
theorem tokens_signed (negative : Bool) (hw : IsWhole whole) (hf : ∀ d ∈ fraction, d.isDigit = true)
    (hfloat : (fraction.isEmpty && power?.isNone) = false) {x : Float}
    (hx : (if negative then -decimalFloat whole fraction (power?.getD 0)
      else decimalFloat whole fraction (power?.getD 0)) = x) (hrest : Ends rest) (p : Nat) :
    ∃ p', tokens p (signText negative ++ (whole ++ (fractionText fraction ++ powerText power?)) ++
      rest) = ⟨.scalar (.num (.float x)), p⟩ :: tokens p' rest := by
  have htoken : numeralToken negative whole fraction power? = .scalar (.num (.float x)) := by
    rw [numeralToken, if_neg (by simp [hfloat])]
    show Token.scalar (.num (.float _)) = _
    rw [hx]
  exact ⟨_, (tokens_numeral negative hw hf (powerText_spec power?) hrest.stops p).trans
    (by rw [htoken])⟩

/-- The digits of zero are read as the positive zero. -/
theorem decimalFloat_zero : decimalFloat ['0'] ['0'] 0 = .ofModel (.pack (.zero .positive)) := by
  decide +kernel

theorem neg_zero :
    -Float.ofModel (.pack (.zero .positive)) = .ofModel (.pack (.zero .negative)) := by
  decide +kernel

theorem toList_signed (negative : Bool) (body : String) :
    (if negative then "-" ++ body else body).toList = signText negative ++ body.toList := by
  cases negative with
  | true =>
    show ("-" ++ body).toList = _
    rw [String.toList_append]
    rfl
  | false => rfl

/-- A finite float is written as its sign and a body. -/
theorem toList_numberText_float {x : Float} {negative : Bool} {m : Nat} {q : Int}
    (h : Binary.ofFloat x = .finite negative m q) : (numberText (.float x)).toList =
      signText negative ++ (if m == 0 then "0.0" else (Decimal.shortest m q).layout).toList := by
  have hshort : numberText (.float x) = Decimal.shortText x := by
    simp only [numberText, h]
  have hbody : Decimal.shortText x =
      if negative then "-" ++ (if m == 0 then "0.0" else (Decimal.shortest m q).layout)
      else if m == 0 then "0.0" else (Decimal.shortest m q).layout := by
    simp only [Decimal.shortText, h]
  rw [hshort, hbody, toList_signed]

/-- The text of a finite float is one token. -/
theorem tokens_float {x : Float} (hx : (Number.float x).isFinite = true) (hrest : Ends rest)
    (p : Nat) : ∃ p', tokens p ((numberText (.float x)).toList ++ rest) =
      ⟨.scalar (.num (.float x)), p⟩ :: tokens p' rest := by
  cases hunpack : Float.Model.UnpackedFloat.unpack .binary64 x.toBits.toBitVec with
  | notANumber =>
    rw [Number.isFinite, Number.exact, Binary.ofFloat, hunpack] at hx
    cases hx
  | infinity s =>
    rw [Number.isFinite, Number.exact, Binary.ofFloat, hunpack] at hx
    cases s <;> cases hx
  | zero s =>
    have hofFloat : Binary.ofFloat x = .finite (s == .negative) 0 0 := by
      rw [Binary.ofFloat, hunpack]
    rw [toList_numberText_float hofFloat, if_pos (beq_self_eq_true 0)]
    have hzero : IsWhole ['0'] := ⟨by simp, by simp, .inr rfl⟩
    have hread : (if s == .negative then -decimalFloat ['0'] ['0'] 0
        else decimalFloat ['0'] ['0'] 0) = x := by
      rw [Binary.eq_of_unpack hunpack, decimalFloat_zero]
      cases s with
      | positive => rfl
      | negative => exact neg_zero
    exact @tokens_signed _ _ _ none _ hzero (by simp) rfl x hread hrest p
  | finite s m q hm =>
    have hofFloat : Binary.ofFloat x = .finite (s == .negative) m q := by
      rw [Binary.ofFloat, hunpack]
    obtain ⟨hcanonical, hx⟩ := Binary.eq_toFloat hunpack
    have haround := Decimal.around_shortest hcanonical
    obtain ⟨whole, fraction, power?, hparts⟩ :=
      parts_layout _ (haround.decimal_bounds hcanonical).1
    rw [← hparts.value_eq] at haround
    have hread : (if s == .negative then -decimalFloat whole fraction (power?.getD 0)
        else decimalFloat whole fraction (power?.getD 0)) = x := by
      rw [decimalFloat_of_around hcanonical haround, hx]
      cases s with
      | positive => rfl
      | negative => exact neg_toFloat hcanonical
    rw [toList_numberText_float hofFloat, if_neg (by simpa using Nat.ne_of_gt hm), hparts.text_eq]
    exact tokens_signed _ hparts.isWhole hparts.isFraction hparts.isFloat hread hrest p

end Json

end Dashboards
