import Dashboards.Proofs.Json.Line

/-!
# The grammar of JSON texts

Which texts are JSON, said without the reader, and what the reader makes of them.  Wherever a value
may stand, the text of a value is read as that value and the reader goes on behind it, unless the
text goes beyond a bound; which of the two happens depends on the number of open collections alone.
-/

namespace Dashboards

namespace Json

/-! ## 1. The grammar -/

/-- White space as it may stand between tokens. -/
def Spaces (cs : List Char) : Prop := ∀ c ∈ cs, isSpace c = true

/-- What may stand between quotes: plain characters, of which none is a control character, and
escapes. -/
inductive Quotable : List Char → Prop
  | nil : Quotable []
  | plain {c : Char} {cs : List Char} (hquote : c ≠ '"') (hslash : c ≠ '\\')
      (hcontrol : 0x1F < c.toNat) (h : Quotable cs) : Quotable (c :: cs)
  | escaped {letter : Char} {cs : List Char}
      (hletter : letter ∈ ['"', '\\', '/', 'b', 'f', 'n', 'r', 't']) (h : Quotable cs) :
      Quotable ('\\' :: letter :: cs)
  | unit {a b c d : Char} {cs : List Char} (hunit : (hexUnit? a b c d).isSome) (h : Quotable cs) :
      Quotable ('\\' :: 'u' :: a :: b :: c :: d :: cs)

/-- A number: a sign that may be missing, a whole part, and perhaps a fraction and a power. -/
inductive Numeral : List Char → Prop
  | mk (negative : Bool) {whole fraction power : List Char} {power? : Option Int}
      (hw : IsWhole whole) (hf : ∀ d ∈ fraction, d.isDigit = true) (hp : PowerText power power?) :
      Numeral (signText negative ++ (whole ++ (fractionText fraction ++ power)))

/-- What a part of a text is: a value, or all that stands between the marks of an array or of an
object that is not empty. -/
inductive Phrase where
  | value
  | items
  | members

/-- The texts of the phrases. -/
inductive Grammar : Phrase → List Char → Prop
  | word {w : String × Value} (hw : w ∈ words) : Grammar .value w.1.toList
  | text {body : List Char} (hbody : Quotable body) : Grammar .value ('"' :: (body ++ ['"']))
  | number {cs : List Char} (h : Numeral cs) : Grammar .value cs
  | emptyArray {a : List Char} (ha : Spaces a) : Grammar .value ('[' :: (a ++ [']']))
  | array {ts : List Char} (h : Grammar .items ts) : Grammar .value ('[' :: (ts ++ [']']))
  | emptyObject {a : List Char} (ha : Spaces a) : Grammar .value ('\x7b' :: (a ++ ['\x7d']))
  | object {ts : List Char} (h : Grammar .members ts) :
      Grammar .value ('\x7b' :: (ts ++ ['\x7d']))
  | item {a t b : List Char} (ha : Spaces a) (ht : Grammar .value t) (hb : Spaces b) :
      Grammar .items (a ++ (t ++ b))
  | nextItem {a t b ts : List Char} (ha : Spaces a) (ht : Grammar .value t) (hb : Spaces b)
      (hts : Grammar .items ts) : Grammar .items (a ++ (t ++ (b ++ ',' :: ts)))
  | member {a key b c t d : List Char} (ha : Spaces a) (hkey : Quotable key) (hb : Spaces b)
      (hc : Spaces c) (ht : Grammar .value t) (hd : Spaces d) :
      Grammar .members (a ++ '"' :: (key ++ '"' :: (b ++ ':' :: (c ++ (t ++ d)))))
  | nextMember {a key b c t d ts : List Char} (ha : Spaces a) (hkey : Quotable key)
      (hb : Spaces b) (hc : Spaces c) (ht : Grammar .value t) (hd : Spaces d)
      (hts : Grammar .members ts) :
      Grammar .members (a ++ '"' :: (key ++ '"' :: (b ++ ':' :: (c ++ (t ++ (d ++ ',' :: ts))))))

/-- The text of an object without the white space around it, and what stands between its braces. -/
structure ObjectCore (core inner : List Char) : Prop where
  eq : core = '\x7b' :: (inner ++ ['\x7d'])
  inside : Spaces inner ∨ Grammar .members inner

/-- The JSON text of an object. -/
def ObjectText (cs : List Char) : Prop :=
  ∃ before core inner after, Spaces before ∧ ObjectCore core inner ∧ Spaces after ∧
    cs = before ++ (core ++ after)

/-! ## 2. Texts between quotes -/

variable {cs text rest : List Char}

/-- An escape whose unit has no partner behind it is a character of its own. -/
theorem QuotedAs.lone {a b c d : Char} {unit : Nat} (h : QuotedAs cs text rest) (hne : cs ≠ [])
    (hunit : hexUnit? a b c d = some unit)
    (hlone : ∀ low, pairedUnit? cs = some low →
      ∃ n, low = some n ∧ ¬(0xD800 ≤ unit ∧ unit < 0xDC00 ∧ 0xDC00 ≤ n ∧ n < 0xE000)) :
    QuotedAs ('\\' :: 'u' :: a :: b :: c :: d :: cs) (unitChar unit :: text) rest := by
  intro opened position
  rw [readQuoted, if_neg (by simpa using hne), hunit]
  dsimp only
  by_cases hhigh : 0xD800 ≤ unit ∧ unit < 0xDC00
  · rw [if_pos hhigh]
    cases hpaired : pairedUnit? cs with
    | none => exact h.widen _ [unitChar unit]
    | some low =>
      obtain ⟨n, rfl, hn⟩ := hlone low hpaired
      dsimp only
      rw [if_neg fun hlow => hn ⟨hhigh.1, hhigh.2, hlow⟩]
      exact h.widen _ [unitChar unit]
  · rw [if_neg hhigh]
    exact h.widen _ [unitChar unit]

/-- The unit that is paired with an escape in front of a quotable text is one that can be read. -/
theorem isSome_of_pairedUnit? {body : List Char} (hbody : Quotable body) {low : Option Nat}
    (h : pairedUnit? (body ++ '"' :: rest) = some low) :
    ∃ a b c d body' n, body = '\\' :: 'u' :: a :: b :: c :: d :: body' ∧ Quotable body' ∧
      hexUnit? a b c d = some n ∧ low = some n := by
  cases hbody with
  | nil => cases h
  | plain hquote hslash hcontrol hbody =>
    unfold pairedUnit? at h
    split at h
    · rename_i heq
      exact absurd (List.cons.inj heq).1 hslash
    · cases h
  | escaped hletter hbody =>
    unfold pairedUnit? at h
    split at h
    · rename_i heq
      obtain rfl := (List.cons.inj (List.cons.inj heq).2).1
      exact absurd hletter (by decide)
    · cases h
  | @unit a b c d body' hunit hbody =>
    obtain ⟨n, hn⟩ := Option.isSome_iff_exists.1 hunit
    refine ⟨a, b, c, d, body', n, rfl, hbody, hn, ?_⟩
    obtain ⟨e, more, hmore⟩ : ∃ e more, body' ++ '"' :: rest = e :: more :=
      List.exists_cons_of_ne_nil (List.append_ne_nil_of_right_ne_nil _ (List.cons_ne_nil _ _))
    have hunfold : pairedUnit? ('\\' :: 'u' :: a :: b :: c :: d :: (body' ++ '"' :: rest)) =
        some (hexUnit? a b c d) := by
      rw [hmore]
      rfl
    exact (Option.some.inj (hunfold.symm.trans h)).symm.trans hn

/-- A quotable text is read up to the quote behind it, as the same text whatever follows. -/
theorem quotedAs_of_quotable {body : List Char} (h : Quotable body) :
    ∃ text, ∀ rest, QuotedAs (body ++ '"' :: rest) text rest := by
  -- A surrogate pair is one step of the reader and two of the grammar.
  induction hlength : body.length using Nat.strong_induction_on generalizing body with
  | _ n ih =>
    subst hlength
    cases h with
    | nil => exact ⟨[], fun rest => quotedAs_nil⟩
    | @plain c cs hquote hslash hcontrol h =>
      obtain ⟨text, htext⟩ := ih cs.length (by simp) h rfl
      exact ⟨c :: text, fun rest => (htext rest).plain hquote hslash hcontrol⟩
    | @escaped letter cs hletter h =>
      have hescaped : ∃ c, escaped? letter = some c := by
        simp only [List.mem_cons, List.not_mem_nil, or_false] at hletter
        rcases hletter with rfl | rfl | rfl | rfl | rfl | rfl | rfl | rfl <;> exact ⟨_, rfl⟩
      obtain ⟨c, hc⟩ := hescaped
      obtain ⟨text, htext⟩ := ih cs.length (by simp) h rfl
      exact ⟨c :: text, fun rest => (htext rest).escaped hc⟩
    | @unit a b c d cs hunit h =>
      obtain ⟨unit, hunit⟩ := Option.isSome_iff_exists.1 hunit
      have hne (rest : List Char) : cs ++ '"' :: rest ≠ [] :=
        List.append_ne_nil_of_right_ne_nil _ (List.cons_ne_nil _ _)
      by_cases hpair : ∃ a' b' c' d' cs' low, cs = '\\' :: 'u' :: a' :: b' :: c' :: d' :: cs' ∧
          Quotable cs' ∧ hexUnit? a' b' c' d' = some low ∧ (0xD800 ≤ unit ∧ unit < 0xDC00) ∧
          0xDC00 ≤ low ∧ low < 0xE000
      · obtain ⟨a', b', c', d', cs', low, rfl, h', hlow, hfirst, hsecond⟩ := hpair
        obtain ⟨text, htext⟩ := ih cs'.length (by simp; omega) h' rfl
        exact ⟨_, fun rest => (htext rest).pair
          (List.append_ne_nil_of_right_ne_nil _ (List.cons_ne_nil _ _)) hunit hlow hfirst hsecond⟩
      · obtain ⟨text, htext⟩ := ih cs.length (by simp; omega) h rfl
        have hlone (rest : List Char) (low : Option Nat)
            (hpaired : pairedUnit? (cs ++ '"' :: rest) = some low) :
            ∃ n, low = some n ∧ ¬(0xD800 ≤ unit ∧ unit < 0xDC00 ∧ 0xDC00 ≤ n ∧ n < 0xE000) := by
          obtain ⟨a', b', c', d', cs', n, hcs, h', hn, rfl⟩ := isSome_of_pairedUnit? h hpaired
          exact ⟨n, rfl, fun hrange => hpair ⟨a', b', c', d', cs', n, hcs, h', hn,
            ⟨hrange.1, hrange.2.1⟩, hrange.2.2⟩⟩
        exact ⟨unitChar unit :: text, fun rest => (htext rest).lone (hne rest) hunit (hlone rest)⟩

/-! ## 3. Spaces and tokens -/

/-- A token that stands for a value, or is a mark between values. -/
def Token.Sound : Token → Prop
  | .broken _ | .stray => False
  | _ => True

theorem tokens_spaces {a : List Char} (ha : Spaces a) (p : Nat) (cs : List Char) :
    ∃ p', tokens p (a ++ cs) = tokens p' cs := by
  induction a generalizing p with
  | nil => exact ⟨p, rfl⟩
  | cons c a ih =>
    obtain ⟨hc, ha⟩ := List.forall_mem_cons.1 ha
    obtain ⟨p', hp'⟩ := ih ha (p + 1)
    refine ⟨p', ?_⟩
    rw [List.cons_append, tokens, if_pos hc, hp']

theorem numeralToken_cases (negative : Bool) (whole fraction : List Char) (power? : Option Int) :
    (∃ v, numeralToken negative whole fraction power? = .scalar v) ∨
      ∃ digits, numeralToken negative whole fraction power? = .overlong digits := by
  unfold numeralToken integerToken
  split
  · split
    · exact .inr ⟨_, rfl⟩
    · exact .inl ⟨_, rfl⟩
  · exact .inl ⟨_, rfl⟩

theorem Stops.spaces_append {a : List Char} (ha : Spaces a) (h : Stops rest) : Stops (a ++ rest) := by
  cases a with
  | nil => exact h
  | cons c a =>
    intro d hd
    obtain rfl : c = d := Option.some.inj hd
    have hc := ha c List.mem_cons_self
    simp only [isSpace, Bool.or_eq_true, beq_iff_eq, or_assoc] at hc
    rcases hc with rfl | rfl | rfl | rfl <;> decide

theorem stops_mark {c : Char} (hc : c = ',' ∨ c = ']' ∨ c = '\x7d') (cs : List Char) :
    Stops (c :: cs) := by
  intro d hd
  obtain rfl : c = d := Option.some.inj hd
  rcases hc with rfl | rfl | rfl <;> decide

/-! ## 4. What the reader makes of a phrase -/

/-- Behind a value the reader goes on with the tokens that are left, or it gives up. -/
def goOn (outcome : Except Excess Value) (more : List Located) (stack : List Frame) :
    Except Unreadable Value :=
  match outcome with
  | .ok v => readTokens more stack (.after v)
  | .error excess => .error (.beyond excess)

/-- From a position on, a text is cut into sound tokens up to what is left of it. -/
structure Cut (p : Nat) (cs : List Char) (ts : List Located) (p' : Nat) (rest : List Char) :
    Prop where
  tokens_eq : tokens p cs = ts ++ tokens p' rest
  sound : ∀ l ∈ ts, l.token.Sound

namespace Cut

variable {p p' p₁ : Nat} {mid : List Char} {ts us : List Located}

theorem append (h : Cut p cs ts p₁ mid) (h' : Cut p₁ mid us p' rest) : Cut p cs (ts ++ us) p' rest :=
  ⟨by rw [h.tokens_eq, h'.tokens_eq, List.append_assoc],
    fun l hl => (List.mem_append.1 hl).elim (h.sound l) (h'.sound l)⟩

theorem spaces {a : List Char} (ha : Spaces a) (p : Nat) (cs : List Char) :
    ∃ p', Cut p (a ++ cs) [] p' cs := by
  obtain ⟨p', hp'⟩ := tokens_spaces ha p cs
  exact ⟨p', hp', fun l hl => by cases hl⟩

theorem token {t : Token} (h : tokens p cs = ⟨t, p⟩ :: tokens p' rest) (ht : t.Sound) :
    Cut p cs [⟨t, p⟩] p' rest :=
  ⟨h, List.forall_mem_singleton.2 ht⟩

theorem mark {c : Char} {t : Token} (h : punctuation? c = some t) (p : Nat) (cs : List Char) :
    Cut p (c :: cs) [⟨t, p⟩] (p + 1) cs := by
  refine token (tokens_mark h p cs) ?_
  unfold punctuation? at h
  split at h <;> cases h <;> trivial

theorem quoted {body : List Char} (h : Quotable body) :
    ∃ s, ∀ p rest, ∃ p', Cut p ('"' :: (body ++ '"' :: rest)) [⟨.text s, p⟩] p' rest := by
  obtain ⟨text, htext⟩ := quotedAs_of_quotable h
  refine ⟨String.ofList text, fun p rest => ?_⟩
  obtain ⟨p', hp'⟩ := (htext rest).tokens p
  exact ⟨p', token hp' trivial⟩

end Cut

/-- What the reader makes of a phrase, which may depend on the number of the collections that are
open and on what has come before it in its own collection. -/
def Promise : Phrase → List Char → Prop
  | .value, cs => ∃ outcome : Nat → Except Excess Value, ∀ p rest, Stops rest →
      ∃ l ts p', Cut p (cs ++ rest) (l :: ts) p' rest ∧ l.token ≠ .closeArray ∧ ∀ more stack,
        readTokens (l :: ts ++ more) stack .value = goOn (outcome stack.length) more stack
  | .items, cs => ∃ outcome : Nat → List Value → Except Excess Value, ∀ p rest,
      ∃ l ts p', Cut p (cs ++ ']' :: rest) (l :: ts) p' rest ∧ l.token ≠ .closeArray ∧
        ∀ more done outer, readTokens (l :: ts ++ more) (.items done :: outer) .value =
          goOn (outcome outer.length done) more outer
  | .members, cs => ∃ outcome : Nat → Members Value → Except Excess (Members Value), ∀ p rest,
      ∃ ts p', Cut p (cs ++ '\x7d' :: rest) ts p' rest ∧ ∀ more done outer mode,
        mode = .key done ∨ mode = .firstKey ∧ done = [] →
          readTokens (ts ++ more) outer mode =
            goOn ((outcome outer.length done).map .obj) more outer

variable {a b : List Char}

/-- A value of one token stands for a scalar or goes beyond the bound for integers. -/
theorem promise_of_token {cs : List Char} {t : Token}
    (ht : (∃ v, t = .scalar v) ∨ (∃ s, t = .text s) ∨ ∃ digits, t = .overlong digits)
    (h : ∀ p rest, Stops rest → ∃ p', tokens p (cs ++ rest) = ⟨t, p⟩ :: tokens p' rest) :
    Promise .value cs := by
  obtain ⟨v, rfl⟩ | ⟨s, rfl⟩ | ⟨digits, rfl⟩ := ht
  · refine ⟨fun _ => .ok v, fun p rest hrest => ?_⟩
    obtain ⟨p', hp'⟩ := h p rest hrest
    exact ⟨_, [], p', .token hp' trivial, nofun, fun more stack => rfl⟩
  · refine ⟨fun _ => .ok (.str s), fun p rest hrest => ?_⟩
    obtain ⟨p', hp'⟩ := h p rest hrest
    exact ⟨_, [], p', .token hp' trivial, nofun, fun more stack => rfl⟩
  · refine ⟨fun _ => .error (.longInteger digits), fun p rest hrest => ?_⟩
    obtain ⟨p', hp'⟩ := h p rest hrest
    exact ⟨_, [], p', .token hp' trivial, nofun, fun more stack => rfl⟩

theorem promise_number {cs : List Char} (h : Numeral cs) : Promise .value cs := by
  obtain ⟨negative, hw, hf, hp⟩ := h
  rcases numeralToken_cases negative _ _ _ with ⟨v, hv⟩ | ⟨digits, hdigits⟩
  · exact promise_of_token (.inl ⟨v, hv⟩) fun p rest hrest =>
      ⟨_, tokens_numeral negative hw hf hp hrest p⟩
  · exact promise_of_token (.inr (.inr ⟨digits, hdigits⟩)) fun p rest hrest =>
      ⟨_, tokens_numeral negative hw hf hp hrest p⟩

theorem promise_text {body : List Char} (h : Quotable body) :
    Promise .value ('"' :: (body ++ ['"'])) := by
  obtain ⟨s, hs⟩ := Cut.quoted h
  refine promise_of_token (.inr (.inl ⟨s, rfl⟩)) fun p rest _ => ?_
  obtain ⟨p', hp'⟩ := hs p rest
  refine ⟨p', ?_⟩
  rw [List.cons_append, List.append_assoc]
  exact hp'.tokens_eq

theorem isFull_eq (stack : List Frame) : isFull stack = decide (Excess.textDepth ≤ stack.length) :=
  rfl

theorem promise_emptyArray (ha : Spaces a) : Promise .value ('[' :: (a ++ [']'])) := by
  refine ⟨fun n => if Excess.textDepth ≤ n then .error .deepArray else .ok (.arr []),
    fun p rest _ => ?_⟩
  obtain ⟨p₁, hspaces⟩ := Cut.spaces ha (p + 1) (']' :: rest)
  have hcut := ((@Cut.mark '[' .openArray rfl p (a ++ ']' :: rest)).append hspaces).append
    (@Cut.mark ']' .closeArray rfl p₁ rest)
  refine ⟨⟨.openArray, p⟩, _, _, by rw [List.cons_append, List.append_assoc]; exact hcut, nofun,
    fun more stack => ?_⟩
  show (if isFull stack = true then Except.error (Unreadable.beyond .deepArray)
    else readTokens more stack (.after (.arr []))) = _
  simp only [isFull_eq, decide_eq_true_eq]
  split <;> rfl

/-- Where the first token closes no array, the first item is read like any other value. -/
theorem readTokens_firstItem {l : Located} (hl : l.token ≠ .closeArray) (ts : List Located)
    (stack : List Frame) :
    readTokens (l :: ts) stack .firstItem = readTokens (l :: ts) stack .value := by
  obtain ⟨t, p⟩ := l
  cases t <;> first | rfl | exact absurd rfl hl

theorem promise_array {items : List Char} (h : Promise .items items) :
    Promise .value ('[' :: (items ++ [']'])) := by
  obtain ⟨outcome, h⟩ := h
  refine ⟨fun n => if Excess.textDepth ≤ n then .error .deepArray else outcome n [],
    fun p rest _ => ?_⟩
  obtain ⟨l, ts, p', hcut, hl, hread⟩ := h (p + 1) rest
  have hopen := (@Cut.mark '[' .openArray rfl p (items ++ ']' :: rest)).append hcut
  refine ⟨⟨.openArray, p⟩, l :: ts, p', ?_, nofun, fun more stack => ?_⟩
  · rw [List.cons_append, List.append_assoc]
    exact hopen
  · show (if isFull stack = true then Except.error (Unreadable.beyond .deepArray)
      else readTokens (l :: (ts ++ more)) (.items [] :: stack) .firstItem) = _
    rw [readTokens_firstItem hl, ← List.cons_append, hread]
    simp only [isFull_eq, decide_eq_true_eq]
    split <;> rfl

theorem promise_emptyObject (ha : Spaces a) : Promise .value ('\x7b' :: (a ++ ['\x7d'])) := by
  refine ⟨fun n => if Excess.textDepth ≤ n then .error .deepObject else .ok (.obj []),
    fun p rest _ => ?_⟩
  obtain ⟨p₁, hspaces⟩ := Cut.spaces ha (p + 1) ('\x7d' :: rest)
  have hcut := ((@Cut.mark '\x7b' .openObject rfl p (a ++ '\x7d' :: rest)).append hspaces).append
    (@Cut.mark '\x7d' .closeObject rfl p₁ rest)
  refine ⟨⟨.openObject, p⟩, _, _, by rw [List.cons_append, List.append_assoc]; exact hcut, nofun,
    fun more stack => ?_⟩
  show (if isFull stack = true then Except.error (Unreadable.beyond .deepObject)
    else readTokens more stack (.after (.obj []))) = _
  simp only [isFull_eq, decide_eq_true_eq]
  split <;> rfl

theorem promise_object {members : List Char} (h : Promise .members members) :
    Promise .value ('\x7b' :: (members ++ ['\x7d'])) := by
  obtain ⟨outcome, h⟩ := h
  refine ⟨fun n => if Excess.textDepth ≤ n then .error .deepObject else (outcome n []).map .obj,
    fun p rest _ => ?_⟩
  obtain ⟨ts, p', hcut, hread⟩ := h (p + 1) rest
  have hopen := (@Cut.mark '\x7b' .openObject rfl p (members ++ '\x7d' :: rest)).append hcut
  refine ⟨⟨.openObject, p⟩, ts, p', ?_, nofun, fun more stack => ?_⟩
  · rw [List.cons_append, List.append_assoc]
    exact hopen
  · show (if isFull stack = true then Except.error (Unreadable.beyond .deepObject)
      else readTokens (ts ++ more) stack .firstKey) = _
    rw [hread more [] stack .firstKey (.inr ⟨rfl, rfl⟩)]
    simp only [isFull_eq, decide_eq_true_eq]
    split <;> rfl

theorem promise_item {t : List Char} (ha : Spaces a) (ht : Promise .value t) (hb : Spaces b) :
    Promise .items (a ++ (t ++ b)) := by
  obtain ⟨outcome, ht⟩ := ht
  refine ⟨fun n done => (outcome (n + 1)).map fun v => .arr (v :: done).reverse, fun p rest => ?_⟩
  have hstops : Stops (b ++ ']' :: rest) := (stops_mark (.inr (.inl rfl)) rest).spaces_append hb
  obtain ⟨p₁, hbefore⟩ := Cut.spaces ha p (t ++ (b ++ ']' :: rest))
  obtain ⟨l, ts, p₂, hvalue, hl, hread⟩ := ht p₁ (b ++ ']' :: rest) hstops
  obtain ⟨p₃, hafter⟩ := Cut.spaces hb p₂ (']' :: rest)
  have hcut := ((hbefore.append hvalue).append hafter).append
    (@Cut.mark ']' .closeArray rfl p₃ rest)
  refine ⟨l, ts ++ [⟨.closeArray, p₃⟩], p₃ + 1, ?_, hl, fun more done outer => ?_⟩
  · simpa only [List.append_assoc, List.nil_append, List.append_nil, List.cons_append] using hcut
  · have hitem := hread (⟨.closeArray, p₃⟩ :: more) (.items done :: outer)
    simp only [List.cons_append, List.append_assoc, List.nil_append] at hitem ⊢
    rw [hitem, List.length_cons]
    cases outcome (outer.length + 1) <;> rfl

theorem promise_nextItem {t items : List Char} (ha : Spaces a) (ht : Promise .value t)
    (hb : Spaces b) (hitems : Promise .items items) :
    Promise .items (a ++ (t ++ (b ++ ',' :: items))) := by
  obtain ⟨outcome, ht⟩ := ht
  obtain ⟨others, hitems⟩ := hitems
  refine ⟨fun n done => outcome (n + 1) >>= fun v => others n (v :: done), fun p rest => ?_⟩
  have hstops : Stops (b ++ ',' :: (items ++ ']' :: rest)) :=
    (stops_mark (.inl rfl) _).spaces_append hb
  obtain ⟨p₁, hbefore⟩ := Cut.spaces ha p (t ++ (b ++ ',' :: (items ++ ']' :: rest)))
  obtain ⟨l, ts, p₂, hvalue, hl, hread⟩ := ht p₁ _ hstops
  obtain ⟨p₃, hafter⟩ := Cut.spaces hb p₂ (',' :: (items ++ ']' :: rest))
  obtain ⟨m, us, p', hothers, -, hreadOthers⟩ := hitems (p₃ + 1) rest
  have hcut := (((hbefore.append hvalue).append hafter).append
    (@Cut.mark ',' .comma rfl p₃ (items ++ ']' :: rest))).append hothers
  refine ⟨l, ts ++ ⟨.comma, p₃⟩ :: m :: us, p', ?_, hl, fun more done outer => ?_⟩
  · simpa only [List.append_assoc, List.nil_append, List.append_nil, List.cons_append] using hcut
  · have hitem := hread (⟨.comma, p₃⟩ :: m :: us ++ more) (.items done :: outer)
    simp only [List.cons_append, List.append_assoc] at hitem ⊢
    rw [hitem, List.length_cons]
    cases outcome (outer.length + 1) with
    | error excess => rfl
    | ok v => exact hreadOthers more (v :: done) outer

/-- The key of a member and the colon behind it. -/
theorem promise_key {key b c : List Char} (ha : Spaces a) (hkey : Quotable key) (hb : Spaces b)
    (hc : Spaces c) : ∃ s, ∀ p rest, ∃ ts p',
      Cut p (a ++ '"' :: (key ++ '"' :: (b ++ ':' :: (c ++ rest)))) ts p' rest ∧
        ∀ more done outer mode, mode = .key done ∨ mode = .firstKey ∧ done = [] →
          readTokens (ts ++ more) outer mode = readTokens more (.member done s :: outer) .value := by
  obtain ⟨s, hs⟩ := Cut.quoted hkey
  refine ⟨s, fun p rest => ?_⟩
  obtain ⟨p₁, hbefore⟩ := Cut.spaces ha p ('"' :: (key ++ '"' :: (b ++ ':' :: (c ++ rest))))
  obtain ⟨p₂, htext⟩ := hs p₁ (b ++ ':' :: (c ++ rest))
  obtain ⟨p₃, hafter⟩ := Cut.spaces hb p₂ (':' :: (c ++ rest))
  obtain ⟨p', hspaces⟩ := Cut.spaces hc (p₃ + 1) rest
  have hcut := (((hbefore.append htext).append hafter).append
    (@Cut.mark ':' .colon rfl p₃ (c ++ rest))).append hspaces
  refine ⟨_, p', hcut, fun more done outer mode hmode => ?_⟩
  rcases hmode with rfl | ⟨rfl, rfl⟩ <;> rfl

theorem promise_member {key b c t d : List Char} (ha : Spaces a) (hkey : Quotable key)
    (hb : Spaces b) (hc : Spaces c) (ht : Promise .value t) (hd : Spaces d) :
    Promise .members (a ++ '"' :: (key ++ '"' :: (b ++ ':' :: (c ++ (t ++ d))))) := by
  obtain ⟨s, hs⟩ := promise_key ha hkey hb hc
  obtain ⟨outcome, ht⟩ := ht
  refine ⟨fun n done => (outcome (n + 1)).map fun v => done.set s v, fun p rest => ?_⟩
  have hstops : Stops (d ++ '\x7d' :: rest) := (stops_mark (.inr (.inr rfl)) rest).spaces_append hd
  obtain ⟨ts, p₁, hfront, hreadKey⟩ := hs p (t ++ (d ++ '\x7d' :: rest))
  obtain ⟨l, us, p₂, hvalue, -, hread⟩ := ht p₁ _ hstops
  obtain ⟨p₃, hafter⟩ := Cut.spaces hd p₂ ('\x7d' :: rest)
  have hcut := ((hfront.append hvalue).append hafter).append
    (@Cut.mark '\x7d' .closeObject rfl p₃ rest)
  refine ⟨ts ++ (l :: us ++ [⟨.closeObject, p₃⟩]), p₃ + 1, ?_, fun more done outer mode hmode => ?_⟩
  · simpa only [List.append_assoc, List.append_nil, List.cons_append] using hcut
  · have hmember := hread (⟨.closeObject, p₃⟩ :: more) (.member done s :: outer)
    rw [List.append_assoc, hreadKey _ done outer mode hmode]
    simp only [List.cons_append, List.append_assoc, List.nil_append] at hmember ⊢
    rw [hmember, List.length_cons]
    cases outcome (outer.length + 1) <;> rfl

theorem promise_nextMember {key b c t d members : List Char} (ha : Spaces a) (hkey : Quotable key)
    (hb : Spaces b) (hc : Spaces c) (ht : Promise .value t) (hd : Spaces d)
    (hmembers : Promise .members members) :
    Promise .members
      (a ++ '"' :: (key ++ '"' :: (b ++ ':' :: (c ++ (t ++ (d ++ ',' :: members)))))) := by
  obtain ⟨s, hs⟩ := promise_key ha hkey hb hc
  obtain ⟨outcome, ht⟩ := ht
  obtain ⟨others, hmembers⟩ := hmembers
  refine ⟨fun n done => outcome (n + 1) >>= fun v => others n (done.set s v), fun p rest => ?_⟩
  have hstops : Stops (d ++ ',' :: (members ++ '\x7d' :: rest)) :=
    (stops_mark (.inl rfl) _).spaces_append hd
  obtain ⟨ts, p₁, hfront, hreadKey⟩ := hs p (t ++ (d ++ ',' :: (members ++ '\x7d' :: rest)))
  obtain ⟨l, us, p₂, hvalue, -, hread⟩ := ht p₁ _ hstops
  obtain ⟨p₃, hafter⟩ := Cut.spaces hd p₂ (',' :: (members ++ '\x7d' :: rest))
  obtain ⟨vs, p', hothers, hreadOthers⟩ := hmembers (p₃ + 1) rest
  have hcut := (((hfront.append hvalue).append hafter).append
    (@Cut.mark ',' .comma rfl p₃ (members ++ '\x7d' :: rest))).append hothers
  refine ⟨ts ++ (l :: us ++ ⟨.comma, p₃⟩ :: vs), p', ?_, fun more done outer mode hmode => ?_⟩
  · simpa only [List.append_assoc, List.append_nil, List.cons_append, List.nil_append] using hcut
  · have hmember := hread (⟨.comma, p₃⟩ :: vs ++ more) (.member done s :: outer)
    rw [List.append_assoc, hreadKey _ done outer mode hmode]
    simp only [List.cons_append, List.append_assoc] at hmember ⊢
    rw [hmember, List.length_cons]
    cases outcome (outer.length + 1) with
    | error excess => rfl
    | ok v => exact hreadOthers more (Members.set done s v) outer (.key (Members.set done s v)) (.inl rfl)

/-- The reader keeps its promise about every phrase. -/
theorem promise_of_grammar {phrase : Phrase} {cs : List Char} (h : Grammar phrase cs) :
    Promise phrase cs := by
  induction h with
  | word hw => exact promise_of_token (.inl ⟨_, rfl⟩) fun p rest _ => ⟨_, tokens_word hw p rest⟩
  | text hbody => exact promise_text hbody
  | number h => exact promise_number h
  | emptyArray ha => exact promise_emptyArray ha
  | array _ ih => exact promise_array ih
  | emptyObject ha => exact promise_emptyObject ha
  | object _ ih => exact promise_object ih
  | item ha _ hb ih => exact promise_item ha ih hb
  | nextItem ha _ hb _ ih ihs => exact promise_nextItem ha ih hb ihs
  | member ha hkey hb hc _ hd ih => exact promise_member ha hkey hb hc ih hd
  | nextMember ha hkey hb hc _ hd _ ih ihs => exact promise_nextMember ha hkey hb hc ih hd ihs

end Json

end Dashboards
