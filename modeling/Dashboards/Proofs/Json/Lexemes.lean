import Dashboards.Proofs.Json.Grammar

/-!
# Lexemes

What a token is cut from.  A quoted text ends at its closing quote and holds no control character
before it, and words and numbers consist of a few characters only.  So a text in which a line break
and a backtick stand without a quote between them has a token that cannot be read: either the line
break is inside a quoted text, or the backtick is outside of all.
-/

namespace Dashboards

namespace Json

/-! ## 1. Quoted texts -/

variable {cs rest : List Char}

theorem toNat_of_hexDigit? {c : Char} (h : (hexDigit? c).isSome = true) : 0x1F < c.toNat := by
  have hdigit : ('0' ≤ c ∧ c ≤ '9') ∨ ('a' ≤ c ∧ c ≤ 'f') ∨ ('A' ≤ c ∧ c ≤ 'F') := by
    unfold hexDigit? at h
    split at h
    · exact .inl ‹_›
    · split at h
      · exact .inr (.inl ‹_›)
      · split at h
        · exact .inr (.inr ‹_›)
        · cases h
  simp only [Char.le_def, UInt32.le_iff_toNat_le] at hdigit
  show 0x1F < c.val.toNat
  rcases hdigit with ⟨hle, -⟩ | ⟨hle, -⟩ | ⟨hle, -⟩
  · exact Nat.lt_of_lt_of_le (by decide) hle
  · exact Nat.lt_of_lt_of_le (by decide) hle
  · exact Nat.lt_of_lt_of_le (by decide) hle

theorem isSome_of_hexUnit? {a b c d : Char} (h : (hexUnit? a b c d).isSome = true) :
    (hexDigit? a).isSome = true ∧ (hexDigit? b).isSome = true ∧ (hexDigit? c).isSome = true ∧
      (hexDigit? d).isSome = true := by
  unfold hexUnit? at h
  cases ha : hexDigit? a <;> cases hb : hexDigit? b <;> cases hc : hexDigit? c <;>
    cases hd : hexDigit? d <;> simp [ha, hb, hc, hd] at h ⊢

/-- No control character is quotable. -/
theorem lt_of_mem_quotable {body : List Char} (h : Quotable body) : ∀ c ∈ body, 0x1F < c.toNat := by
  induction h with
  | nil => exact fun c hc => by cases hc
  | plain _ _ hcontrol _ ih => exact List.forall_mem_cons.2 ⟨hcontrol, ih⟩
  | escaped hletter _ ih =>
    refine List.forall_mem_cons.2 ⟨by decide, List.forall_mem_cons.2 ⟨?_, ih⟩⟩
    simp only [List.mem_cons, List.not_mem_nil, or_false] at hletter
    rcases hletter with rfl | rfl | rfl | rfl | rfl | rfl | rfl | rfl <;> decide
  | unit hunit _ ih =>
    obtain ⟨ha, hb, hc, hd⟩ := isSome_of_hexUnit? hunit
    simp only [List.forall_mem_cons]
    exact ⟨by decide, by decide, toNat_of_hexDigit? ha, toNat_of_hexDigit? hb,
      toNat_of_hexDigit? hc, toNat_of_hexDigit? hd, ih⟩

/-- A text is cut at its closing quote, behind what is quotable. -/
def ClosedBefore (cs rest : List Char) : Prop := ∃ body, Quotable body ∧ cs = body ++ '"' :: rest

theorem ClosedBefore.unit {a b c d : Char} (h : ClosedBefore cs rest)
    (hunit : (hexUnit? a b c d).isSome = true) :
    ClosedBefore ('\\' :: 'u' :: a :: b :: c :: d :: cs) rest := by
  obtain ⟨body, hbody, rfl⟩ := h
  exact ⟨_, .unit hunit hbody, rfl⟩

theorem ClosedBefore.escaped {letter : Char} (h : ClosedBefore cs rest)
    (hletter : letter ∈ ['"', '\\', '/', 'b', 'f', 'n', 'r', 't']) :
    ClosedBefore ('\\' :: letter :: cs) rest := by
  obtain ⟨body, hbody, rfl⟩ := h
  exact ⟨_, .escaped hletter hbody, rfl⟩

theorem ClosedBefore.plain {c : Char} (h : ClosedBefore cs rest) (hquote : c ≠ '"')
    (hslash : c ≠ '\\') (hcontrol : 0x1F < c.toNat) : ClosedBefore (c :: cs) rest := by
  obtain ⟨body, hbody, rfl⟩ := h
  exact ⟨_, .plain hquote hslash hcontrol hbody, rfl⟩

theorem exists_of_widen {m n : Nat} {hle : m ≤ n} {front : List Char} {x : Except Fault (Quoted m)}
    {q : Quoted n} (h : x.map (Quoted.widen hle front) = .ok q) :
    ∃ q', x = .ok q' ∧ q'.rest = q.rest := by
  cases x with
  | error fault => cases h
  | ok q' => exact ⟨q', rfl, congrArg Quoted.rest (Except.ok.inj h)⟩

theorem eq_of_pairedUnit? {unit : Nat} (h : pairedUnit? cs = some (some unit)) :
    ∃ a b c d, (hexUnit? a b c d).isSome = true ∧
      cs = '\\' :: 'u' :: a :: b :: c :: d :: cs.drop 6 := by
  unfold pairedUnit? at h
  split at h
  · exact ⟨_, _, _, _, Option.isSome_iff_exists.2 ⟨unit, Option.some.inj h⟩, rfl⟩
  · cases h

theorem mem_of_escaped? {letter c : Char} (h : escaped? letter = some c) :
    letter ∈ ['"', '\\', '/', 'b', 'f', 'n', 'r', 't'] := by
  unfold escaped? at h
  split at h <;> first | decide | cases h

/-- What is read between quotes is quotable. -/
theorem closedBefore_of_readQuoted {opened position : Nat} {q : Quoted (cs.length + 1)}
    (h : readQuoted opened position cs = .ok q) : ClosedBefore cs q.rest := by
  fun_induction readQuoted opened position cs with
  | case2 position rest =>
    cases h
    exact ⟨[], .nil, rfl⟩
  | case7 =>
    rename_i a b c d cs _ unit hunit _ low hpaired _ ih
    obtain ⟨q', hq', hrest⟩ := exists_of_widen h
    obtain ⟨a', b', c', d', hunit', hcs⟩ := eq_of_pairedUnit? hpaired
    have hclosed := (ih hq').unit hunit'
    rw [← hcs, hrest] at hclosed
    exact hclosed.unit (Option.isSome_iff_exists.2 ⟨_, hunit⟩)
  | case8 position a b c d cs hne unit hunit hhigh low hpaired hlow ih =>
    obtain ⟨q', hq', hrest⟩ := exists_of_widen h
    exact hrest ▸ (ih hq').unit (Option.isSome_iff_exists.2 ⟨_, hunit⟩)
  | case9 position a b c d cs hne unit hunit hhigh hpaired ih =>
    obtain ⟨q', hq', hrest⟩ := exists_of_widen h
    exact hrest ▸ (ih hq').unit (Option.isSome_iff_exists.2 ⟨_, hunit⟩)
  | case10 position a b c d cs hne unit hunit hhigh ih =>
    obtain ⟨q', hq', hrest⟩ := exists_of_widen h
    exact hrest ▸ (ih hq').unit (Option.isSome_iff_exists.2 ⟨_, hunit⟩)
  | case12 position letter cs _ _ c hescaped ih =>
    obtain ⟨q', hq', hrest⟩ := exists_of_widen h
    exact hrest ▸ (ih hq').escaped (mem_of_escaped? hescaped)
  | case15 position c cs hquote hlast hunit hshort hletter hcontrol ih =>
    obtain ⟨q', hq', hrest⟩ := exists_of_widen h
    have hslash : c ≠ '\\' := by
      rintro rfl
      cases hcs : cs with
      | nil => exact hlast rfl hcs
      | cons letter more => exact hletter letter more rfl hcs
    exact hrest ▸ (ih hq').plain hquote hslash (Nat.not_le.1 hcontrol)
  | _ => cases h

/-! ## 2. Words and numbers -/

/-- So many characters at the front of a text, at least one and none of them a backtick. -/
structure Lexeme (cs : List Char) (n : Nat) : Prop where
  pos : 0 < n
  le_length : n ≤ cs.length
  plain : '`' ∉ cs.take n

theorem lexeme_append {front : List Char} (hne : front ≠ []) (hplain : '`' ∉ front)
    (rest : List Char) : Lexeme (front ++ rest) front.length := by
  refine ⟨List.length_pos_iff.2 hne, ?_, ?_⟩
  · rw [List.length_append]
    omega
  · rwa [List.take_left]

theorem backtick_not_mem_digits {ds : List Char} (h : ∀ d ∈ ds, d.isDigit = true) : '`' ∉ ds := by
  intro hmem
  cases h _ hmem

theorem lexeme_of_splitWord? {v : Value} {n : Nat} (h : splitWord? cs = some (v, n)) :
    Lexeme cs n := by
  have hwords : ∀ w ∈ words, w.1.toList ≠ [] ∧ '`' ∉ w.1.toList := by
    simp only [words, List.forall_mem_cons, List.not_mem_nil, false_imp_iff, implies_true]
    decide
  obtain ⟨w, hw, hfound⟩ := List.exists_of_findSome?_eq_some h
  rw [Option.ite_none_right_eq_some, Option.some.injEq, Prod.mk.injEq] at hfound
  obtain ⟨hfront, -, rfl⟩ := hfound
  obtain ⟨rest, rfl⟩ := List.isPrefixOf_iff_prefix.1 hfront
  rw [← String.length_toList]
  exact lexeme_append (hwords w hw).1 (hwords w hw).2 rest

theorem splitSign_spec (cs : List Char) :
    cs = signText (splitSign cs).1 ++ (splitSign cs).2 := by
  unfold splitSign
  split <;> rfl

theorem splitDigits_spec (cs : List Char) :
    cs = (splitDigits cs).1 ++ (splitDigits cs).2 ∧ ∀ d ∈ (splitDigits cs).1, d.isDigit = true :=
  ⟨List.takeWhile_append_dropWhile.symm, List.all_eq_true.1 List.all_takeWhile⟩

theorem splitWhole_spec (cs : List Char) : cs = (splitWhole cs).1 ++ (splitWhole cs).2 := by
  unfold splitWhole
  split
  · rfl
  · exact (splitDigits_spec _).1

theorem splitFraction_spec (cs : List Char) :
    cs = fractionText (splitFraction cs).1 ++ (splitFraction cs).2 ∧
      ∀ d ∈ (splitFraction cs).1, d.isDigit = true := by
  unfold splitFraction
  split
  · rename_i rest
    split
    · exact ⟨rfl, fun d hd => by cases hd⟩
    · rename_i hdigits
      obtain ⟨heq, hall⟩ := splitDigits_spec rest
      refine ⟨?_, hall⟩
      rw [fractionText, if_neg hdigits, List.cons_append, ← heq]
  · exact ⟨rfl, fun d hd => by cases hd⟩

/-- A mark, a sign and digits are no backticks. -/
theorem power_plain {mark : Char} (hmark : (mark == 'e' || mark == 'E') = true) {sign : List Char}
    (hsign : '`' ∉ sign) (digits : List Char) :
    1 + sign.length + (splitDigits digits).1.length ≤ (mark :: (sign ++ digits)).length ∧
      '`' ∉ (mark :: (sign ++ digits)).take (1 + sign.length + (splitDigits digits).1.length) := by
  obtain ⟨heq, hall⟩ := splitDigits_spec digits
  generalize (splitDigits digits).1 = ds at *
  generalize (splitDigits digits).2 = after at *
  subst heq
  have hfront : mark :: (sign ++ (ds ++ after)) = (mark :: (sign ++ ds)) ++ after := by simp
  have hlength : 1 + sign.length + ds.length = (mark :: (sign ++ ds)).length := by
    simp only [List.length_cons, List.length_append]
    omega
  rw [hfront, hlength, List.take_left, List.length_append]
  refine ⟨Nat.le_add_right _ _, fun hmem => ?_⟩
  rcases List.mem_cons.1 hmem with rfl | hmem
  · cases hmark
  · exact (List.mem_append.1 hmem).elim hsign (backtick_not_mem_digits hall)

theorem splitPower_spec (cs : List Char) :
    (splitPower cs).2.1 ≤ cs.length ∧ '`' ∉ cs.take (splitPower cs).2.1 := by
  unfold splitPower
  split
  · rename_i e rest
    dsimp only
    -- The sign that may stand there, and no power without a mark and a digit.
    split <;> dsimp only <;> split
    · rename_i hmark
      exact power_plain (Bool.and_eq_true_iff.1 hmark).1 (by decide : '`' ∉ ['-']) _
    · exact ⟨Nat.zero_le _, List.not_mem_nil⟩
    · rename_i hmark
      exact power_plain (Bool.and_eq_true_iff.1 hmark).1 (by decide : '`' ∉ ['+']) _
    · exact ⟨Nat.zero_le _, List.not_mem_nil⟩
    · rename_i hmark
      exact power_plain (Bool.and_eq_true_iff.1 hmark).1 (List.not_mem_nil : '`' ∉ []) _
    · exact ⟨Nat.zero_le _, List.not_mem_nil⟩
  · exact ⟨Nat.le_refl _, List.not_mem_nil⟩

/-- A number is cut from its own characters, and stands for a scalar or has too many digits. -/
theorem lexeme_of_splitNumber? {t : Token} {n : Nat} (h : splitNumber? cs = some (t, n)) :
    Lexeme cs n ∧ ((∃ v, t = .scalar v) ∨ ∃ digits, t = .overlong digits) := by
  have hsign := splitSign_spec cs
  have hwhole := splitWhole_spec (splitSign cs).2
  have hwholeDigits := @isDigit_of_mem_splitWhole (splitSign cs).2
  obtain ⟨hfraction, hfractionDigits⟩ := splitFraction_spec (splitWhole (splitSign cs).2).2
  obtain ⟨hpower, hpowerPlain⟩ :=
    splitPower_spec (splitFraction (splitWhole (splitSign cs).2).2).2
  unfold splitNumber? at h
  dsimp only at h
  generalize (splitSign cs).1 = negative at *
  generalize (splitSign cs).2 = r₁ at *
  generalize (splitWhole r₁).1 = whole at *
  generalize (splitWhole r₁).2 = r₂ at *
  generalize (splitFraction r₂).1 = fraction at *
  generalize (splitFraction r₂).2 = r₃ at *
  generalize (splitPower r₃).1 = power? at *
  generalize (splitPower r₃).2.1 = marks at *
  rw [Option.ite_none_left_eq_some] at h
  obtain ⟨hne, h⟩ := h
  have hsize : n = (signText negative ++ (whole ++ (fractionText fraction ++ r₃.take marks))).length ∧
      ((∃ v, t = .scalar v) ∨ ∃ digits, t = .overlong digits) := by
    rw [length_number, List.length_take, Nat.min_eq_left hpower]
    split at h
    · have htoken := numeralToken_cases negative whole [] none
      cases h
      exact ⟨rfl, htoken⟩
    · cases h
      exact ⟨rfl, .inl ⟨_, rfl⟩⟩
  have hfront : cs = (signText negative ++ (whole ++ (fractionText fraction ++ r₃.take marks))) ++
      r₃.drop marks := by
    rw [hsign, hwhole, hfraction]
    simp
  refine ⟨?_, hsize.2⟩
  rw [hsize.1, hfront]
  have hwholeNe : whole ≠ [] := fun hnil => hne (hnil ▸ rfl)
  refine lexeme_append ?_ (fun hmem => ?_) _
  · exact List.append_ne_nil_of_right_ne_nil _ (List.append_ne_nil_of_left_ne_nil hwholeNe _)
  · have hsignPlain : '`' ∉ signText negative := by cases negative <;> decide
    have hfractionPlain : '`' ∉ fractionText fraction := by
      unfold fractionText
      split
      · exact List.not_mem_nil
      · exact fun hmem => (List.mem_cons.1 hmem).elim (by decide)
          (backtick_not_mem_digits hfractionDigits)
    simp only [List.mem_append] at hmem
    rcases hmem with hmem | hmem | hmem | hmem
    · exact hsignPlain hmem
    · exact backtick_not_mem_digits hwholeDigits hmem
    · exact hfractionPlain hmem
    · exact hpowerPlain hmem

/-! ## 3. The first token -/

/-- Only a brace is cut to the token of a brace. -/
theorem exists_first_token {c : Char} (hspace : ¬ isSpace c = true) (p : Nat) (cs : List Char) :
    ∃ l ts, tokens p (c :: cs) = l :: ts ∧ (l.token = .openObject → c = '\x7b') := by
  rw [tokens, if_neg hspace]
  split
  · rename_i t ht
    refine ⟨_, _, rfl, ?_⟩
    rintro rfl
    unfold punctuation? at ht
    split at ht <;> first | rfl | cases ht
  · split
    · split
      · exact ⟨_, _, rfl, fun h => Token.noConfusion h⟩
      · exact ⟨_, _, rfl, fun h => Token.noConfusion h⟩
    · split
      · exact ⟨_, _, rfl, fun h => Token.noConfusion h⟩
      · split
        · rename_i t n hnumber
          refine ⟨_, _, rfl, ?_⟩
          rintro rfl
          obtain ⟨-, ⟨v, hv⟩ | ⟨digits, hdigits⟩⟩ := lexeme_of_splitNumber? hnumber
          · cases hv
          · cases hdigits
        · exact ⟨_, _, rfl, fun h => Token.noConfusion h⟩

/-! ## 4. Tokens that cannot be read -/

/-- A token that cannot be read comes before the end. -/
inductive Spoiled : List Located → Prop
  | here {l : Located} {ts : List Located} (h : ¬ l.token.Sound) : Spoiled (l :: ts)
  | later {l : Located} {ts : List Located} (hl : l.token ≠ .ending) (h : Spoiled ts) :
      Spoiled (l :: ts)

theorem Spoiled.exists_mem {ts : List Located} (h : Spoiled ts) : ∃ l ∈ ts, ¬ l.token.Sound := by
  induction h with
  | here h => exact ⟨_, List.mem_cons_self, h⟩
  | later _ _ ih =>
    obtain ⟨l, hl, hsound⟩ := ih
    exact ⟨l, List.mem_cons_of_mem _ hl, hsound⟩

/-- Before the end of a text the reader gives up, or a token is sound and it goes on with the rest. -/
theorem readTokens_step {l : Located} (hl : l.token ≠ .ending) (ts : List Located)
    (stack : List Frame) (mode : Mode) :
    (∃ cause, readTokens (l :: ts) stack mode = .error cause) ∨
      l.token.Sound ∧ ∃ stack' mode', readTokens (l :: ts) stack mode = readTokens ts stack' mode' := by
  obtain ⟨t, p⟩ := l
  have hvalue : (∃ cause, readTokens (⟨t, p⟩ :: ts) stack .value = .error cause) ∨
      t.Sound ∧ ∃ stack' mode',
        readTokens (⟨t, p⟩ :: ts) stack .value = readTokens ts stack' mode' := by
    cases t with
    | openObject =>
      by_cases hfull : isFull stack = true
      · exact .inl ⟨_, if_pos hfull⟩
      · exact .inr ⟨trivial, _, _, if_neg hfull⟩
    | openArray =>
      by_cases hfull : isFull stack = true
      · exact .inl ⟨_, if_pos hfull⟩
      · exact .inr ⟨trivial, _, _, if_neg hfull⟩
    | scalar v => exact .inr ⟨trivial, _, _, rfl⟩
    | text s => exact .inr ⟨trivial, _, _, rfl⟩
    | _ => exact .inl ⟨_, rfl⟩
  cases mode with
  | value => exact hvalue
  | firstItem =>
    by_cases hclose : t = .closeArray
    · subst hclose
      exact .inr ⟨trivial, _, _, rfl⟩
    · rw [@readTokens_firstItem ⟨t, p⟩ hclose]
      exact hvalue
  | key done => cases t <;> first | exact .inr ⟨trivial, _, _, rfl⟩ | exact .inl ⟨_, rfl⟩
  | firstKey => cases t <;> first | exact .inr ⟨trivial, _, _, rfl⟩ | exact .inl ⟨_, rfl⟩
  | colon done k => cases t <;> first | exact .inr ⟨trivial, _, _, rfl⟩ | exact .inl ⟨_, rfl⟩
  | after v =>
    cases stack with
    | nil => cases t <;> first | exact absurd rfl hl | exact .inl ⟨_, rfl⟩
    | cons f outer =>
      cases f <;> cases t <;> first | exact .inr ⟨trivial, _, _, rfl⟩ | exact .inl ⟨_, rfl⟩

/-- Whatever is open, the reader does not get past a token that cannot be read. -/
theorem Spoiled.readTokens_ne_ok {ts : List Located} (h : Spoiled ts) {stack : List Frame}
    {mode : Mode} {v : Value} : readTokens ts stack mode ≠ .ok v := by
  induction h generalizing stack mode with
  | @here l ts h =>
    have hl : l.token ≠ .ending := fun hending => h (hending ▸ trivial)
    rcases readTokens_step hl ts stack mode with ⟨cause, hcause⟩ | ⟨hsound, -⟩
    · rw [hcause]
      nofun
    · exact absurd hsound h
  | @later l ts hl _ ih =>
    rcases readTokens_step hl ts stack mode with ⟨cause, hcause⟩ | ⟨-, stack', mode', hnext⟩
    · rw [hcause]
      nofun
    · rw [hnext]
      exact ih

/-- Somewhere in a text, with no quote in between, stands a backtick and, if there are quotes before
that, a line break. -/
def Exposed (cs : List Char) : Prop :=
  ∃ front x rest, cs = front ++ (x ++ rest) ∧ '"' ∉ x ∧ '`' ∈ x ∧ ('"' ∈ front → '\n' ∈ x)

theorem Exposed.drop (h : Exposed cs) {n : Nat} (hplain : '`' ∉ cs.take n) : Exposed (cs.drop n) := by
  obtain ⟨front, x, rest, rfl, hquote, hbacktick, hbreak⟩ := h
  rcases Nat.le_total n front.length with hle | hle
  · refine ⟨front.drop n, x, rest, List.drop_append_of_le_length hle, hquote, hbacktick, ?_⟩
    exact fun hmem => hbreak (List.mem_of_mem_drop hmem)
  · -- What is dropped reaches into the part with the backtick, but not up to it.
    obtain ⟨k, rfl⟩ := Nat.exists_eq_add_of_le hle
    rw [List.take_length_add_append] at hplain
    rw [List.drop_length_add_append]
    have hk : k ≤ x.length := by
      by_contra hlt
      refine hplain (List.mem_append_right _ ?_)
      rw [List.take_append, List.take_of_length_le (by omega)]
      exact List.mem_append_left _ hbacktick
    refine ⟨[], x.drop k, rest, List.drop_append_of_le_length hk, ?_, ?_, nofun⟩
    · exact fun hmem => hquote (List.mem_of_mem_drop hmem)
    · rw [← List.take_append_drop k x] at hbacktick
      refine (List.mem_append.1 hbacktick).resolve_left fun hmem => hplain ?_
      refine List.mem_append_right _ ?_
      rw [List.take_append_of_le_length hk]
      exact hmem

theorem Exposed.of_closed (h : Exposed ('"' :: cs)) (hclosed : ClosedBefore cs rest) :
    Exposed rest := by
  obtain ⟨body, hbody, rfl⟩ := hclosed
  obtain ⟨front, x, more, htext, hquote, hbacktick, hbreak⟩ := h
  cases front with
  | nil =>
    -- The part itself would begin with the quote.
    cases x with
    | nil => cases hbacktick
    | cons c x =>
      obtain rfl : '"' = c := (List.cons.inj htext).1
      exact absurd List.mem_cons_self hquote
  | cons c front =>
    obtain ⟨rfl, htail⟩ : '"' = c ∧ body ++ '"' :: rest = front ++ (x ++ more) :=
      List.cons.inj htext
    have hcontrol : '\n' ∉ body := fun hmem => absurd (lt_of_mem_quotable hbody _ hmem) (by decide)
    obtain ⟨middle, hfront, hrest⟩ | ⟨middle, hbody', hrest⟩ := List.append_eq_append_iff.1 htail
    · -- The closing quote comes before the part.
      cases middle with
      | nil =>
        rw [List.nil_append] at hrest
        cases x with
        | nil => cases hbacktick
        | cons c x =>
          obtain rfl : '"' = c := (List.cons.inj hrest).1
          exact absurd List.mem_cons_self hquote
      | cons c middle =>
        obtain ⟨rfl, rfl⟩ := List.cons.inj hrest
        exact ⟨middle, x, more, rfl, hquote, hbacktick, fun _ => hbreak List.mem_cons_self⟩
    · -- The part would begin between the quotes, and end there too.
      have hbreak : '\n' ∈ x := hbreak List.mem_cons_self
      obtain ⟨tail, rfl, -⟩ | ⟨tail, rfl, hmore⟩ := List.append_eq_append_iff.1 hrest
      · exact absurd (hbody' ▸ List.mem_append_right _ (List.mem_append_left _ hbreak)) hcontrol
      · cases tail with
        | nil =>
          rw [List.append_nil] at hbreak
          exact absurd (hbody' ▸ List.mem_append_right _ hbreak) hcontrol
        | cons c tail =>
          obtain rfl : '"' = c := (List.cons.inj hmore).1
          exact absurd (List.mem_append_right _ List.mem_cons_self) hquote

/-- The tokens of such a text are not all to be read. -/
theorem spoiled_of_exposed (h : Exposed cs) (p : Nat) : Spoiled (tokens p cs) := by
  have hmark : ∀ {c : Char} {t : Token}, punctuation? c = some t → t ≠ .ending ∧ c ≠ '`' := by
    intro c t ht
    unfold punctuation? at ht
    split at ht <;> cases ht <;> exact ⟨fun h => Token.noConfusion h, by decide⟩
  have hfirst : ∀ {c : Char} {cs : List Char}, Exposed (c :: cs) → c ≠ '`' → Exposed cs :=
    fun h hc => h.drop (n := 1) fun hmem => hc (List.mem_singleton.1 hmem).symm
  have hlexeme : ∀ {c : Char} {cs : List Char} {n : Nat}, Exposed (c :: cs) → Lexeme (c :: cs) n →
      Exposed (cs.drop (n - 1)) := by
    intro c cs n h hn
    have hdrop := h.drop hn.plain
    rwa [← Nat.sub_add_cancel hn.pos, List.drop_succ_cons] at hdrop
  fun_induction tokens p cs with
  | case1 p =>
    obtain ⟨front, x, rest, hnil, -, hbacktick, -⟩ := h
    have hx : x = [] := (List.append_eq_nil_iff.1 (List.append_eq_nil_iff.1 hnil.symm).2).1
    rw [hx] at hbacktick
    cases hbacktick
  | case2 p c cs hspace ih => exact ih (hfirst h fun hc => by subst hc; cases hspace)
  | case3 p c cs hspace t ht ih => exact .later (hmark ht).1 (ih (hfirst h (hmark ht).2))
  | case4 p c cs hspace hnone hquote q hq hlt ih =>
    obtain rfl := eq_of_beq hquote
    exact .later (fun h => Token.noConfusion h) (ih (h.of_closed (closedBefore_of_readQuoted hq)))
  | case5 => exact .here id
  | case6 p c cs hspace hnone hquote v n hword ih =>
    exact .later (fun h => Token.noConfusion h) (ih (hlexeme h (lexeme_of_splitWord? hword)))
  | case7 p c cs hspace hnone hquote hword t n hnumber ih =>
    obtain ⟨hn, ht⟩ := lexeme_of_splitNumber? hnumber
    refine .later ?_ (ih (hlexeme h hn))
    rcases ht with ⟨v, rfl⟩ | ⟨digits, rfl⟩ <;> exact fun h => Token.noConfusion h
  | case8 => exact .here id

end Json

end Dashboards
