import Dashboards.Proofs.Json.Reader

/-!
# Trees that are written and read

The text of a JSON tree on one line, with everything outside ASCII escaped, is read back as that
tree, provided that its numbers are finite and that it keeps to the bounds of the reader.
-/

namespace Dashboards

namespace Json

/-! ## 1. Hexadecimal digits -/

theorem hexText_succ {k n : Nat} (hk : 0 < k) :
    hexText (k + 1) n = hexText k (n / 16) ++ [Nat.digitChar (n % 16)] := by
  unfold hexText
  dsimp only
  by_cases hn : n < 16
  · rw [Nat.toDigits_of_lt_base hn, Nat.div_eq_of_lt hn, Nat.toDigits_zero, Nat.mod_eq_of_lt hn]
    obtain ⟨k, rfl⟩ := Nat.exists_eq_add_one.2 hk
    simp [List.replicate_succ']
  · rw [Nat.toDigits_of_base_le (by decide) (Nat.not_lt.1 hn), List.length_append,
      List.length_singleton, Nat.add_sub_add_right, List.append_assoc]

theorem hexText_four (n : Nat) (h : n < 0x10000) : hexText 4 n =
    [Nat.digitChar (n / 4096), Nat.digitChar (n / 256 % 16), Nat.digitChar (n / 16 % 16),
      Nat.digitChar (n % 16)] := by
  have hone : hexText 1 (n / 4096) = [Nat.digitChar (n / 4096)] := by
    rw [hexText, Nat.toDigits_of_lt_base (by omega)]
    rfl
  rw [hexText_succ (by decide), hexText_succ (by decide), hexText_succ (by decide)]
  simp only [Nat.div_div_eq_div_mul, hone]
  rfl

theorem hexDigit?_digitChar {d : Nat} (hd : d < 16) : hexDigit? (Nat.digitChar d) = some d := by
  have hall : ∀ d : Fin 16, hexDigit? (Nat.digitChar d) = some d.val := by decide
  exact hall ⟨d, hd⟩

/-- A code unit is found again in its escape. -/
theorem unitEscape_eq {n : Nat} (h : n < 0x10000) : ∃ a b c d,
    unitEscape n = ['\\', 'u', a, b, c, d] ∧ hexUnit? a b c d = some n := by
  refine ⟨_, _, _, _, congrArg ('\\' :: 'u' :: ·) (hexText_four n h), ?_⟩
  rw [hexUnit?, hexDigit?_digitChar (by omega), hexDigit?_digitChar (by omega),
    hexDigit?_digitChar (by omega), hexDigit?_digitChar (by omega)]
  show some (((n / 4096 * 16 + n / 256 % 16) * 16 + n / 16 % 16) * 16 + n % 16) = _
  congr 1
  omega

/-! ## 2. Quoted texts -/

/-- Inside quotes, `cs` is read as `text`, up to a closing quote with `rest` behind it. -/
def QuotedAs (cs text rest : List Char) : Prop :=
  ∀ opened position, ∃ q, readQuoted opened position cs = .ok q ∧ q.text = text ∧ q.rest = rest

variable {cs text rest : List Char}

theorem QuotedAs.widen {bound : Nat} {opened position : Nat}
    (h : QuotedAs cs text rest) (hle : cs.length + 1 ≤ bound) (front : List Char) :
    ∃ q, (readQuoted opened position cs).map (Quoted.widen hle front) = .ok q ∧
      q.text = front ++ text ∧ q.rest = rest := by
  obtain ⟨q, hq, rfl, rfl⟩ := h opened position
  rw [hq]
  exact ⟨_, rfl, rfl, rfl⟩

theorem quotedAs_nil : QuotedAs ('"' :: rest) [] rest := by
  intro opened position
  rw [readQuoted]
  exact ⟨_, rfl, rfl, rfl⟩

theorem QuotedAs.plain {c : Char} (h : QuotedAs cs text rest) (hquote : c ≠ '"') (hslash : c ≠ '\\')
    (hcontrol : 0x1F < c.toNat) : QuotedAs (c :: cs) (c :: text) rest := by
  intro opened position
  rw [readQuoted]
  · rw [if_neg (Nat.not_le.2 hcontrol)]
    exact h.widen _ [c]
  all_goals intros; contradiction

theorem QuotedAs.escaped {letter c : Char} (h : QuotedAs cs text rest)
    (hescaped : escaped? letter = some c) : QuotedAs ('\\' :: letter :: cs) (c :: text) rest := by
  have hu : letter ≠ 'u' := by
    rintro rfl
    cases hescaped
  intro opened position
  rw [readQuoted]
  · rw [hescaped]
    exact h.widen _ [c]
  all_goals intros; contradiction

theorem QuotedAs.unit {a b c d : Char} {unit : Nat} (h : QuotedAs cs text rest) (hne : cs ≠ [])
    (hunit : hexUnit? a b c d = some unit) (hwhole : unit < 0xD800 ∨ 0xDFFF < unit) :
    QuotedAs ('\\' :: 'u' :: a :: b :: c :: d :: cs) (Char.ofNat unit :: text) rest := by
  intro opened position
  have hchar : unitChar unit = Char.ofNat unit := if_neg (by omega)
  rw [readQuoted, if_neg (by simpa using hne), hunit]
  dsimp only
  rw [if_neg (by omega), hchar]
  exact h.widen _ [_]

/-- Two escapes make one character, if their units are the halves of a surrogate pair. -/
theorem QuotedAs.pair {a b c d a' b' c' d' : Char} {high low : Nat} (h : QuotedAs cs text rest)
    (hne : cs ≠ []) (hhigh : hexUnit? a b c d = some high) (hlow : hexUnit? a' b' c' d' = some low)
    (hfirst : 0xD800 ≤ high ∧ high < 0xDC00) (hsecond : 0xDC00 ≤ low ∧ low < 0xE000) :
    QuotedAs ('\\' :: 'u' :: a :: b :: c :: d :: '\\' :: 'u' :: a' :: b' :: c' :: d' :: cs)
      (Char.ofNat (0x10000 + (high - 0xD800) * 0x400 + (low - 0xDC00)) :: text) rest := by
  intro opened position
  have hpaired : pairedUnit? ('\\' :: 'u' :: a' :: b' :: c' :: d' :: cs) = some (some low) := by
    cases cs with
    | nil => exact absurd rfl hne
    | cons e cs => exact congrArg some hlow
  rw [readQuoted, if_neg (by simp), hhigh]
  dsimp only
  rw [if_pos hfirst, hpaired]
  dsimp only
  rw [if_pos hsecond]
  exact h.widen _ [_]

/-- A character is found again in what is written for it. -/
theorem QuotedAs.quoteChar (h : QuotedAs cs text rest) (hne : cs ≠ []) (c : Char) :
    QuotedAs (quoteChar true c ++ cs) (c :: text) rest := by
  unfold Json.quoteChar
  split
  · exact h.escaped rfl
  · exact h.escaped rfl
  · exact h.escaped rfl
  · exact h.escaped rfl
  · exact h.escaped rfl
  · exact h.escaped rfl
  · exact h.escaped rfl
  · rename_i hquote hslash _ _ _ _ _
    have hvalid : c.toNat < 0xD800 ∨ 0xDFFF < c.toNat ∧ c.toNat < 0x110000 := c.valid
    have hchar : Char.ofNat c.toNat = c := Char.ofNat_toNat c
    dsimp only
    split
    · obtain ⟨x, y, z, w, hescape, hunit⟩ := @unitEscape_eq c.toNat (by omega)
      rw [hescape, ← hchar]
      exact h.unit hne hunit (by omega)
    · split
      · split
        · obtain ⟨x, y, z, w, hescape, hunit⟩ := @unitEscape_eq c.toNat (by omega)
          rw [hescape, ← hchar]
          exact h.unit hne hunit (by omega)
        · -- The unit is beyond the range of one escape, so it is written as a surrogate pair.
          obtain ⟨x, y, z, w, hhigh, hhighUnit⟩ :=
            @unitEscape_eq (0xD800 + (c.toNat - 0x10000) / 0x400) (by omega)
          obtain ⟨x', y', z', w', hlow, hlowUnit⟩ :=
            @unitEscape_eq (0xDC00 + (c.toNat - 0x10000) % 0x400) (by omega)
          have hpair := h.pair hne hhighUnit hlowUnit (by omega) (by omega)
          have hcode : 0x10000 + (0xD800 + (c.toNat - 0x10000) / 0x400 - 0xD800) * 0x400 +
              (0xDC00 + (c.toNat - 0x10000) % 0x400 - 0xDC00) = c.toNat := by omega
          rw [hcode, hchar] at hpair
          rw [hhigh, hlow]
          exact hpair
      · exact h.plain hquote hslash (by omega)

theorem quotedAs_flatMap (s rest : List Char) :
    QuotedAs (s.flatMap (quoteChar true) ++ '"' :: rest) s rest := by
  induction s with
  | nil => exact quotedAs_nil
  | cons c s ih =>
    rw [List.flatMap_cons, List.append_assoc]
    exact ih.quoteChar (List.append_ne_nil_of_right_ne_nil _ (List.cons_ne_nil _ _)) c

/-- A quoted text is one token. -/
theorem QuotedAs.tokens (h : QuotedAs cs text rest) (p : Nat) :
    ∃ p', tokens p ('"' :: cs) = ⟨.text (String.ofList text), p⟩ :: Json.tokens p' rest := by
  obtain ⟨q, hq, rfl, rfl⟩ := h p (p + 1)
  refine ⟨q.position, ?_⟩
  rw [Json.tokens, if_neg (by decide)]
  show (if ('"' == '"') = true then _ else _) = _
  rw [if_pos (beq_self_eq_true '"'), hq]

theorem tokens_quote (s : String) (rest : List Char) (p : Nat) :
    ∃ p', tokens p ((quote true s).toList ++ rest) = ⟨.text s, p⟩ :: tokens p' rest := by
  have htoken := (quotedAs_flatMap s.toList rest).tokens p
  rw [String.ofList_toList] at htoken
  rw [quote, String.toList_ofList, List.append_assoc]
  exact htoken

/-! ## 3. Marks and words -/

theorem tokens_mark {c : Char} {t : Token} (h : punctuation? c = some t) (p : Nat)
    (cs : List Char) : tokens p (c :: cs) = ⟨t, p⟩ :: tokens (p + 1) cs := by
  have hspace : ¬ isSpace c = true := by
    unfold punctuation? at h
    split at h <;> first | decide | cases h
  rw [tokens, if_neg hspace, h]

theorem tokens_space (p : Nat) (cs : List Char) : tokens p (' ' :: cs) = tokens (p + 1) cs := by
  rw [tokens, if_pos (by decide)]

theorem tokens_comma (p : Nat) (cs : List Char) :
    tokens p (',' :: ' ' :: cs) = ⟨.comma, p⟩ :: tokens (p + 2) cs := by
  rw [@tokens_mark ',' .comma rfl, tokens_space]

theorem tokens_colon (p : Nat) (cs : List Char) :
    tokens p (':' :: ' ' :: cs) = ⟨.colon, p⟩ :: tokens (p + 2) cs := by
  rw [@tokens_mark ':' .colon rfl, tokens_space]

/-- A word is one token, whatever follows. -/
theorem tokens_word {w : String × Value} (hw : w ∈ words) (p : Nat) (cs : List Char) :
    tokens p (w.1.toList ++ cs) = ⟨.scalar w.2, p⟩ :: tokens (p + w.1.length) cs := by
  simp only [words, List.mem_cons, List.not_mem_nil, or_false] at hw
  rcases hw with rfl | rfl | rfl | rfl | rfl | rfl
  · show tokens p ('n' :: 'u' :: 'l' :: 'l' :: cs) = _
    rw [tokens, if_neg (by decide)]
    rfl
  · show tokens p ('t' :: 'r' :: 'u' :: 'e' :: cs) = _
    rw [tokens, if_neg (by decide)]
    rfl
  · show tokens p ('f' :: 'a' :: 'l' :: 's' :: 'e' :: cs) = _
    rw [tokens, if_neg (by decide)]
    rfl
  · show tokens p ('N' :: 'a' :: 'N' :: cs) = _
    rw [tokens, if_neg (by decide)]
    rfl
  · show tokens p ('I' :: 'n' :: 'f' :: 'i' :: 'n' :: 'i' :: 't' :: 'y' :: cs) = _
    rw [tokens, if_neg (by decide)]
    rfl
  · show tokens p ('-' :: 'I' :: 'n' :: 'f' :: 'i' :: 'n' :: 'i' :: 't' :: 'y' :: cs) = _
    rw [tokens, if_neg (by decide)]
    rfl

/-! ## 4. Values -/

/-- Where a value is expected, the text of `v` is read as `v` if there is so much room. -/
def ReadBack (room : Nat) (v : Value) : Prop :=
  ∀ ⦃stack : List Frame⦄ ⦃mode : Mode⦄ ⦃rest : List Char⦄ (p : Nat),
    mode = .value ∨ mode = .firstItem → stack.length + room ≤ Excess.textDepth → Ends rest →
      ∃ p', readTokens (tokens p ((line (.spaced true) v).toList ++ rest)) stack mode =
        readTokens (tokens p' rest) stack (.after v)

theorem readBack_of_tokens {room : Nat} {v : Value} (h : ∀ p rest, Ends rest →
    ∃ p', tokens p ((line (.spaced true) v).toList ++ rest) = ⟨.scalar v, p⟩ :: tokens p' rest) :
    ReadBack room v := by
  intro stack mode rest p hmode _ hrest
  obtain ⟨p', hp⟩ := h p rest hrest
  refine ⟨p', ?_⟩
  rw [hp]
  rcases hmode with rfl | rfl <;> rfl

theorem readBack_scalar {v : Value} (hv : v.Plain) (hfinite : v.Orderly (·.isFinite = true))
    (room : Nat) : ReadBack room v := by
  cases v with
  | null =>
    exact readBack_of_tokens fun p rest _ => ⟨_, @tokens_word ("null", .null) (by simp [words]) p rest⟩
  | bool b =>
    refine readBack_of_tokens fun p rest _ => ?_
    cases b with
    | true => exact ⟨_, @tokens_word ("true", .bool true) (by simp [words]) p rest⟩
    | false => exact ⟨_, @tokens_word ("false", .bool false) (by simp [words]) p rest⟩
  | num n =>
    cases n with
    | int n => exact readBack_of_tokens fun p rest hrest => tokens_int hv hrest p
    | float x => exact readBack_of_tokens fun p rest hrest => tokens_float hfinite hrest p
    | undefined mark => cases hfinite
  | str s =>
    intro stack mode rest p hmode _ _
    obtain ⟨p', hp⟩ := tokens_quote s rest p
    refine ⟨p', ?_⟩
    show readTokens (tokens p ((quote true s).toList ++ rest)) stack mode = _
    rw [hp]
    rcases hmode with rfl | rfl <;> rfl
  | arr xs => cases hv
  | obj ms => cases hv

/-- The items of an array as they stand between the brackets. -/
def itemsText (xs : List Value) : List Char :=
  (", ".intercalate (lineItems (.spaced true) xs)).toList

theorem itemsText_singleton (x : Value) : itemsText [x] = (line (.spaced true) x).toList := by
  rw [itemsText, lineItems, lineItems, String.intercalate_singleton]

theorem itemsText_cons (x y : Value) (ys : List Value) : itemsText (x :: y :: ys) =
    (line (.spaced true) x).toList ++ ',' :: ' ' :: itemsText (y :: ys) := by
  rw [itemsText, lineItems, lineItems, String.intercalate_cons_cons, String.toList_append,
    String.toList_append, List.append_assoc]
  rfl

theorem toList_line_arr (xs : List Value) :
    (line (.spaced true) (.arr xs)).toList = '[' :: (itemsText xs ++ [']']) := by
  rw [line, String.toList_append, String.toList_append]
  rfl

/-- The members of an object as they stand between the braces. -/
def membersText (ms : Members Value) : List Char :=
  (", ".intercalate (lineMembers (.spaced true) ms)).toList

theorem toList_member (key : String) (v : Value) :
    (quote true key ++ ": " ++ line (.spaced true) v).toList =
      (quote true key).toList ++ ':' :: ' ' :: (line (.spaced true) v).toList := by
  rw [String.toList_append, String.toList_append, List.append_assoc]
  rfl

theorem membersText_singleton (key : String) (v : Value) : membersText [(key, v)] =
    (quote true key).toList ++ ':' :: ' ' :: (line (.spaced true) v).toList := by
  rw [membersText, lineMembers, lineMembers, String.intercalate_singleton]
  exact toList_member key v

theorem membersText_cons (key : String) (v : Value) (m : String × Value) (ms : Members Value) :
    membersText ((key, v) :: m :: ms) = (quote true key).toList ++ ':' :: ' ' ::
      ((line (.spaced true) v).toList ++ ',' :: ' ' :: membersText (m :: ms)) := by
  have hmember := toList_member key v
  rw [membersText, lineMembers, lineMembers, String.intercalate_cons_cons, String.toList_append,
    String.toList_append]
  show (quote true key ++ ": " ++ line (.spaced true) v).toList ++ [',', ' '] ++
    membersText (m :: ms) = _
  rw [hmember]
  simp

theorem toList_line_obj (ms : Members Value) :
    (line (.spaced true) (.obj ms)).toList = '\x7b' :: (membersText ms ++ ['\x7d']) := by
  rw [line, String.toList_append, String.toList_append]
  rfl

/-- The text of an object starts with two characters in ASCII. -/
theorem exists_toList_line_obj (ms : Members Value) :
    ∃ d cs, (line (.spaced true) (.obj ms)).toList = '\x7b' :: d :: cs ∧
      0 < d.toNat ∧ d.toNat < 0x80 := by
  rw [toList_line_obj]
  rcases ms with _ | ⟨⟨key, v⟩, _ | ⟨m, ms⟩⟩
  · exact ⟨'\x7d', [], rfl, by decide, by decide⟩
  · rw [membersText_singleton, quote, String.toList_ofList]
    exact ⟨'"', _, rfl, by decide, by decide⟩
  · rw [membersText_cons, quote, String.toList_ofList]
    exact ⟨'"', _, rfl, by decide, by decide⟩

variable {room : Nat} {outer : List Frame}

/-- The items of an array are read one after the other, behind those that are there. -/
theorem readTokens_items {xs : List Value} (hxs : ∀ x ∈ xs, ReadBack room x) (hne : xs ≠ [])
    (hroom : outer.length + (room + 1) ≤ Excess.textDepth) (rest : List Char) (done : List Value)
    {mode : Mode} (hmode : mode = .value ∨ mode = .firstItem) (p : Nat) :
    ∃ p', readTokens (tokens p (itemsText xs ++ ']' :: rest)) (.items done :: outer) mode =
      readTokens (tokens p' rest) outer (.after (.arr (done.reverse ++ xs))) := by
  induction xs generalizing done mode p with
  | nil => exact absurd rfl hne
  | cons x xs ih =>
    obtain ⟨hx, hxs⟩ := List.forall_mem_cons.1 hxs
    have hlength : (Frame.items done :: outer).length + room ≤ Excess.textDepth := by
      rw [List.length_cons]
      omega
    cases xs with
    | nil =>
      have hends : Ends (']' :: rest) := fun c hc => .inr (.inl (Option.some.inj hc).symm)
      obtain ⟨p₁, hp₁⟩ := hx p hmode hlength hends
      refine ⟨p₁ + 1, ?_⟩
      rw [itemsText_singleton, hp₁,
        @tokens_mark ']' .closeArray rfl]
      show readTokens _ outer (.after (.arr (x :: done).reverse)) = _
      rw [List.reverse_cons]
    | cons y ys =>
      have hends : Ends (',' :: ' ' :: (itemsText (y :: ys) ++ ']' :: rest)) :=
        fun c hc => .inl (Option.some.inj hc).symm
      obtain ⟨p₁, hp₁⟩ := hx p hmode hlength hends
      obtain ⟨p₂, hp₂⟩ := ih hxs (List.cons_ne_nil _ _) (x :: done) (.inl rfl) (p₁ + 2)
      refine ⟨p₂, ?_⟩
      rw [itemsText_cons]
      simp only [List.append_assoc, List.cons_append]
      rw [hp₁, tokens_comma]
      show readTokens _ (.items (x :: done) :: outer) .value = _
      rw [hp₂, List.reverse_cons, List.append_assoc]
      rfl

/-- The members of an object are read one after the other, behind those that are there. -/
theorem readTokens_members {ms done : Members Value} (hms : ∀ m ∈ ms, ReadBack room m.2)
    (hne : ms ≠ []) (hkeys : (Members.keys (done ++ ms)).Nodup)
    (hroom : outer.length + (room + 1) ≤ Excess.textDepth) (rest : List Char) {mode : Mode}
    (hmode : mode = .key done ∨ mode = .firstKey ∧ done = []) (p : Nat) :
    ∃ p', readTokens (tokens p (membersText ms ++ '\x7d' :: rest)) outer mode =
      readTokens (tokens p' rest) outer (.after (.obj (done ++ ms))) := by
  induction ms generalizing done mode p with
  | nil => exact absurd rfl hne
  | cons m ms ih =>
    obtain ⟨key, v⟩ := m
    obtain ⟨hv, hms⟩ := List.forall_mem_cons.1 hms
    have hlength : (Frame.member done key :: outer).length + room ≤ Excess.textDepth := by
      rw [List.length_cons]
      omega
    -- The key and the colon are read alike in front of the first member and of the others.
    have hkey : ∀ cs, ∃ p',
        readTokens (tokens p ((quote true key).toList ++ ':' :: ' ' :: cs)) outer mode =
          readTokens (tokens p' cs) (.member done key :: outer) .value := by
      intro cs
      obtain ⟨p₁, hp₁⟩ := tokens_quote key (':' :: ' ' :: cs) p
      refine ⟨p₁ + 2, ?_⟩
      rw [hp₁]
      rcases hmode with rfl | ⟨rfl, rfl⟩
      · show readTokens (tokens p₁ _) outer (.colon done key) = _
        rw [tokens_colon]
        rfl
      · show readTokens (tokens p₁ _) outer (.colon [] key) = _
        rw [tokens_colon]
        rfl
    have hset : done.set key v = done ++ [(key, v)] := by
      refine Members.set_of_not_mem ?_ v
      rw [Members.keys, List.map_append] at hkeys
      exact fun hmem => List.disjoint_of_nodup_append hkeys hmem List.mem_cons_self
    cases ms with
    | nil =>
      have hends : Ends ('\x7d' :: rest) := fun c hc => .inr (.inr (Option.some.inj hc).symm)
      obtain ⟨p₁, hp₁⟩ := hkey ((line (.spaced true) v).toList ++ '\x7d' :: rest)
      obtain ⟨p₂, hp₂⟩ := hv p₁ (.inl rfl) hlength hends
      refine ⟨p₂ + 1, ?_⟩
      rw [membersText_singleton]
      simp only [List.append_assoc, List.cons_append]
      rw [hp₁, hp₂, @tokens_mark '\x7d' .closeObject rfl, ← hset]
      rfl
    | cons m ms =>
      have hends : Ends (',' :: ' ' :: (membersText (m :: ms) ++ '\x7d' :: rest)) :=
        fun c hc => .inl (Option.some.inj hc).symm
      obtain ⟨p₁, hp₁⟩ := hkey ((line (.spaced true) v).toList ++
        (',' :: ' ' :: (membersText (m :: ms) ++ '\x7d' :: rest)))
      obtain ⟨p₂, hp₂⟩ := hv p₁ (.inl rfl) hlength hends
      have hkeys' : (Members.keys (done.set key v ++ m :: ms)).Nodup := by
        rw [hset, List.append_assoc]
        exact hkeys
      obtain ⟨p₃, hp₃⟩ := ih hms (List.cons_ne_nil _ _) hkeys' (.inl rfl) (p₂ + 2)
      refine ⟨p₃, ?_⟩
      rw [membersText_cons]
      simp only [List.append_assoc, List.cons_append]
      rw [hp₁, hp₂, tokens_comma]
      show readTokens _ outer (.key (done.set key v)) = _
      rw [hp₃, hset, List.append_assoc]
      rfl

theorem not_isFull {stack : List Frame} (h : stack.length + (room + 1) ≤ Excess.textDepth) :
    isFull stack = false :=
  decide_eq_false (by omega)

/-- A legible tree with finite numbers is read back from its text. -/
theorem readBack_of_legible {v : Value} (hv : v.Legible room)
    (hfinite : v.Orderly (·.isFinite = true)) : ReadBack room v := by
  induction hv with
  | scalar h => exact readBack_scalar h hfinite _
  | @arr room xs _ ih =>
    intro stack mode rest p hmode hroom hrest
    have hopen : readTokens (tokens p ((line (.spaced true) (.arr xs)).toList ++ rest)) stack mode =
        readTokens (tokens (p + 1) (itemsText xs ++ ']' :: rest)) (.items [] :: stack)
          .firstItem := by
      rw [toList_line_arr, List.cons_append, List.append_assoc,
        @tokens_mark '[' .openArray rfl]
      have hif : readTokens (⟨.openArray, p⟩ :: tokens (p + 1) (itemsText xs ++ ']' :: rest)) stack
          mode = if isFull stack then .error (.beyond .deepArray) else
            readTokens (tokens (p + 1) (itemsText xs ++ ']' :: rest)) (.items [] :: stack)
              .firstItem := by
        rcases hmode with rfl | rfl <;> rfl
      rw [not_isFull hroom] at hif
      exact hif
    rw [hopen]
    rcases eq_or_ne xs [] with rfl | hne
    · refine ⟨p + 2, ?_⟩
      show readTokens (tokens (p + 1) (']' :: rest)) _ _ = _
      rw [@tokens_mark ']' .closeArray rfl]
      rfl
    · have hitems : ∀ x ∈ xs, ReadBack room x := fun x hx =>
        ih x hx (Value.orderly_arr_iff.1 hfinite x hx)
      exact readTokens_items hitems hne hroom rest [] (.inr rfl) (p + 1)
  | @obj room ms hkeys _ ih =>
    intro stack mode rest p hmode hroom hrest
    have hopen : readTokens (tokens p ((line (.spaced true) (.obj ms)).toList ++ rest)) stack mode =
        readTokens (tokens (p + 1) (membersText ms ++ '\x7d' :: rest)) stack .firstKey := by
      rw [toList_line_obj, List.cons_append, List.append_assoc,
        @tokens_mark '\x7b' .openObject rfl]
      have hif : readTokens (⟨.openObject, p⟩ :: tokens (p + 1) (membersText ms ++ '\x7d' :: rest))
          stack mode = if isFull stack then .error (.beyond .deepObject) else
            readTokens (tokens (p + 1) (membersText ms ++ '\x7d' :: rest)) stack .firstKey := by
        rcases hmode with rfl | rfl <;> rfl
      rw [not_isFull hroom] at hif
      exact hif
    rw [hopen]
    rcases eq_or_ne ms [] with rfl | hne
    · refine ⟨p + 2, ?_⟩
      show readTokens (tokens (p + 1) ('\x7d' :: rest)) _ _ = _
      rw [@tokens_mark '\x7d' .closeObject rfl]
      rfl
    · have hmembers : ∀ m ∈ ms, ReadBack room m.2 := fun m hm =>
        ih m hm ((Value.orderly_obj_iff.1 hfinite).2 m hm)
      exact @readTokens_members _ _ _ [] hmembers hne hkeys hroom rest _ (.inr ⟨rfl, rfl⟩) (p + 1)

/-- A text with a mark at its front is no value. -/
theorem readTokens_mark (cs : List Char) :
    readTokens (tokens 0 ('\uFEFF' :: cs)) [] .value = wrong .expectingValue 0 := by
  have hword : splitWord? ('\uFEFF' :: cs) = none := rfl
  have hnumber : splitNumber? ('\uFEFF' :: cs) = none := rfl
  rw [tokens, if_neg (by decide)]
  show readTokens (if ('\uFEFF' == '"') = true then _ else _) _ _ = _
  rw [if_neg (by decide), hword, hnumber]
  rfl

/-- The characters of a legible tree with finite numbers are read as that tree. -/
theorem readChars_line {v : Value} (hv : v.Legible Excess.textDepth)
    (hfinite : v.Orderly (·.isFinite = true)) :
    readChars (line (.spaced true) v).toList = .ok v := by
  obtain ⟨p', hp⟩ := @readBack_of_legible _ _ hv hfinite [] .value [] 0 (.inl rfl) (Nat.le_of_eq
    (Nat.zero_add _)) (fun c hc => by cases hc)
  rw [List.append_nil, tokens] at hp
  exact hp

/-- The text of a legible tree with finite numbers is read as that tree. -/
theorem read_line {v : Value} (hv : v.Legible Excess.textDepth)
    (hfinite : v.Orderly (·.isFinite = true)) : read (line (.spaced true) v) = .ok v := by
  have hchars := readChars_line hv hfinite
  unfold read
  split
  · rename_i cs hcons
    rw [hcons, readChars, readTokens_mark] at hchars
    cases hchars
  · exact hchars

end Json

end Dashboards
