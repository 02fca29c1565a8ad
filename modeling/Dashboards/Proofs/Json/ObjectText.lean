import Dashboards.Proofs.Json.Lexemes

/-!
# The texts of objects

The text of an object is read as that object, or goes beyond a bound.  A text that is read as an
object has white space in front of its first brace; so when the text of an object stands in it, and
no brace before that, it is read as that very object.
-/

namespace Dashboards

namespace Json

/-! ## 1. What begins an object -/

/-- An array is open at the bottom, or has just been read. -/
def Rooted (stack : List Frame) (mode : Mode) : Prop :=
  (∃ front done, stack = front ++ [.items done]) ∨ (stack = [] ∧ ∃ xs, mode = .after (.arr xs))

/-- What is read from an opening bracket on is an array. -/
theorem exists_arr_of_readTokens {ts : List Located} {stack : List Frame} {mode : Mode} {v : Value}
    (hroot : Rooted stack mode) (h : readTokens ts stack mode = .ok v) : ∃ xs, v = .arr xs := by
  induction ts generalizing stack mode with
  | nil => cases h
  | cons l rest ih =>
    obtain ⟨t, p⟩ := l
    obtain ⟨front, done, rfl⟩ | ⟨rfl, xs, rfl⟩ := hroot
    · have hopen (mode : Mode) : Rooted (front ++ [.items done]) mode := .inl ⟨front, done, rfl⟩
      have hpush (f : Frame) (mode : Mode) : Rooted (f :: (front ++ [.items done])) mode :=
        .inl ⟨f :: front, done, rfl⟩
      -- A value that begins here leaves the bottom as it is.
      have hvalue (hread : readTokens (⟨t, p⟩ :: rest) (front ++ [.items done]) .value = .ok v) :
          ∃ xs, v = .arr xs := by
        cases t with
        | openObject =>
          change (if isFull _ = true then _ else _) = _ at hread
          split at hread
          · cases hread
          · exact ih (hopen .firstKey) hread
        | openArray =>
          change (if isFull _ = true then _ else _) = _ at hread
          split at hread
          · cases hread
          · exact ih (hpush (.items []) .firstItem) hread
        | scalar w => exact ih (hopen (.after w)) hread
        | text s => exact ih (hopen (.after (.str s))) hread
        | _ => cases hread
      cases mode with
      | value => exact hvalue h
      | firstItem =>
        by_cases hclose : t = .closeArray
        · subst hclose
          change readTokens rest ((front ++ [Frame.items done]).drop 1) (.after (.arr [])) = _ at h
          cases front with
          | nil => exact ih (.inr ⟨rfl, [], rfl⟩) h
          | cons f front => exact ih (.inl ⟨front, done, rfl⟩) h
        · exact hvalue (@readTokens_firstItem ⟨t, p⟩ hclose rest _ ▸ h)
      | key members =>
        cases t with
        | text s => exact ih (hopen (.colon members s)) h
        | _ => cases h
      | firstKey =>
        cases t with
        | text s => exact ih (hopen (.colon [] s)) h
        | closeObject => exact ih (hopen (.after (.obj []))) h
        | _ => cases h
      | colon members k =>
        cases t with
        | colon => exact ih (hpush (.member members k) .value) h
        | _ => cases h
      | after w =>
        cases front with
        | nil =>
          cases t with
          | comma => exact ih (.inl ⟨[], w :: done, rfl⟩) h
          | closeArray => exact ih (.inr ⟨rfl, _, rfl⟩) h
          | _ => cases h
        | cons f front =>
          have hrest (mode : Mode) : Rooted (front ++ [.items done]) mode := .inl ⟨front, done, rfl⟩
          cases f with
          | items xs =>
            cases t with
            | comma => exact ih (.inl ⟨.items (w :: xs) :: front, done, rfl⟩) h
            | closeArray => exact ih (hrest (.after _)) h
            | _ => cases h
          | member members k =>
            cases t with
            | comma => exact ih (hrest (.key _)) h
            | closeObject => exact ih (hrest (.after _)) h
            | _ => cases h
    · cases t with
      | ending => exact ⟨xs, (Except.ok.inj h).symm⟩
      | _ => cases h

/-- Behind a whole value nothing may come but the end. -/
theorem eq_of_readTokens_after {ts : List Located} {v w : Value}
    (h : readTokens ts [] (.after w) = .ok v) : w = v := by
  cases ts with
  | nil => cases h
  | cons l rest =>
    obtain ⟨t, p⟩ := l
    cases t with
    | ending => exact Except.ok.inj h
    | _ => cases h

/-- Only an opening brace begins an object. -/
theorem token_eq_openObject {l : Located} {ts : List Located} {ms : Members Value}
    (hplain : l.token.Plain) (h : readTokens (l :: ts) [] .value = .ok (.obj ms)) :
    l.token = .openObject := by
  obtain ⟨t, p⟩ := l
  cases t with
  | openObject => rfl
  | openArray =>
    change (if isFull [] = true then Except.error (Unreadable.beyond .deepArray)
      else readTokens ts [.items []] .firstItem) = _ at h
    split at h
    · cases h
    · obtain ⟨xs, hxs⟩ := exists_arr_of_readTokens (.inl ⟨[], [], rfl⟩) h
      cases hxs
  | scalar w =>
    obtain rfl := eq_of_readTokens_after h
    exact (hplain _ rfl).elim
  | text s => cases eq_of_readTokens_after h
  | _ => cases h

/-- Whether a text is read, its mark of the byte order aside, is a matter of its tokens. -/
theorem read_eq_ok_iff {cs : List Char} {v : Value} :
    read (String.ofList cs) = .ok v ↔ readTokens (tokens 0 cs) [] .value = .ok v := by
  rw [read, String.toList_ofList]
  split
  · rw [readTokens_mark]
    exact ⟨nofun, nofun⟩
  · exact Iff.rfl

/-- Without a mark of the byte order at its front a text is read by its tokens. -/
theorem read_of_ne {c : Char} (hc : c ≠ '\uFEFF') (cs : List Char) :
    read (String.ofList (c :: cs)) = readTokens (tokens 0 (c :: cs)) [] .value := by
  rw [read, String.toList_ofList]
  split
  · rename_i heq
    exact absurd (List.cons.inj heq).1 hc
  · rfl

/-- In front of an object nothing stands but white space. -/
theorem spaces_of_read_obj {front cs : List Char} {p : Nat} {ms : Members Value}
    (hfront : '\x7b' ∉ front)
    (h : readTokens (tokens p (front ++ cs)) [] .value = .ok (.obj ms)) : Spaces front := by
  induction front generalizing p with
  | nil => exact fun c hc => by cases hc
  | cons c front ih =>
    obtain ⟨hc, hfront⟩ := not_or.1 fun hmem => hfront (List.mem_cons.2 hmem)
    by_cases hspace : isSpace c = true
    · rw [List.cons_append, tokens, if_pos hspace] at h
      exact List.forall_mem_cons.2 ⟨hspace, ih hfront h⟩
    · -- The first token is another one than a brace.
      obtain ⟨l, ts, htokens, hbrace⟩ := exists_first_token hspace p (front ++ cs)
      have hplain : l.token.Plain := plain_of_mem_tokens l (htokens ▸ List.mem_cons_self)
      rw [List.cons_append, htokens] at h
      exact absurd (hbrace (token_eq_openObject hplain h)).symm hc

/-- Without a brace there is no object. -/
theorem brace_mem_of_read_obj {cs : List Char} {ms : Members Value}
    (h : read (String.ofList cs) = .ok (.obj ms)) : '\x7b' ∈ cs := by
  by_contra hnone
  rw [read_eq_ok_iff, ← List.append_nil cs] at h
  obtain ⟨p', hp'⟩ := tokens_spaces (spaces_of_read_obj hnone h) 0 []
  rw [hp', tokens] at h
  cases h

/-! ## 2. What an object is read as -/

variable {core inner : List Char}

/-- An object, or the bound that its text goes beyond, as the answer of the reader. -/
def answer (outcome : Except Excess (Members Value)) : Except Unreadable Value :=
  match outcome with
  | .ok ms => .ok (.obj ms)
  | .error excess => .error (.beyond excess)

/-- The text of an object is cut into sound tokens, and from them the reader makes an object or
gives up at a bound, whatever follows. -/
theorem ObjectCore.outcome (h : ObjectCore core inner) :
    ∃ outcome : Except Excess (Members Value), ∀ p rest, ∃ ts p', Cut p (core ++ rest) ts p' rest ∧
      ∀ more, readTokens (ts ++ more) [] .value = goOn (outcome.map .obj) more [] := by
  obtain ⟨rfl, hinside⟩ := h
  have hopen (p : Nat) (rest : List Char) :=
    @Cut.mark '\x7b' .openObject rfl p (inner ++ '\x7d' :: rest)
  rcases hinside with hspaces | hmembers
  · refine ⟨.ok [], fun p rest => ?_⟩
    obtain ⟨p₁, hcut⟩ := Cut.spaces hspaces (p + 1) ('\x7d' :: rest)
    have hcut := ((hopen p rest).append hcut).append (@Cut.mark '\x7d' .closeObject rfl p₁ rest)
    refine ⟨[⟨.openObject, p⟩, ⟨.closeObject, p₁⟩], p₁ + 1, ?_, fun more => rfl⟩
    rw [List.cons_append, List.append_assoc]
    exact hcut
  · obtain ⟨outcome, hmembers⟩ := promise_of_grammar hmembers
    refine ⟨outcome 0 [], fun p rest => ?_⟩
    obtain ⟨ts, p', hcut, hread⟩ := hmembers (p + 1) rest
    refine ⟨⟨.openObject, p⟩ :: ts, p', ?_, fun more => hread more [] [] .firstKey (.inr ⟨rfl, rfl⟩)⟩
    rw [List.cons_append, List.append_assoc]
    exact (hopen p rest).append hcut

/-- Behind white space there is only the end. -/
theorem readTokens_after_spaces {a : List Char} (ha : Spaces a) (p : Nat)
    (outcome : Except Excess (Members Value)) :
    goOn (outcome.map .obj) (tokens p a) [] = answer outcome := by
  obtain ⟨p', hp'⟩ := tokens_spaces ha p []
  rw [List.append_nil] at hp'
  rw [hp', tokens]
  cases outcome <;> rfl

/-- How an object is read, wherever it stands. -/
structure ReadsAs (core : List Char) (outcome : Except Excess (Members Value)) : Prop where
  alone : ∀ {before after : List Char}, Spaces before → Spaces after →
    read (String.ofList (before ++ (core ++ after))) = answer outcome
  within : ∀ {before after : List Char} {ms : Members Value}, '\x7b' ∉ before →
    read (String.ofList (before ++ (core ++ after))) = .ok (.obj ms) → outcome = .ok ms

/-- The text of an object is read the same way wherever it stands. -/
theorem ObjectCore.reads (h : ObjectCore core inner) : ∃ outcome, ReadsAs core outcome := by
  obtain ⟨outcome, houtcome⟩ := h.outcome
  have hread {before : List Char} (hbefore : Spaces before) (after : List Char) :
      ∃ p, readTokens (tokens 0 (before ++ (core ++ after))) [] .value =
        goOn (outcome.map .obj) (tokens p after) [] := by
    obtain ⟨p, hp⟩ := tokens_spaces hbefore 0 (core ++ after)
    obtain ⟨ts, p', hcut, hgo⟩ := houtcome p after
    exact ⟨p', by rw [hp, hcut.tokens_eq, hgo]⟩
  refine ⟨outcome, fun {before after} hbefore hafter => ?_, fun {before after ms} hbefore hok => ?_⟩
  · obtain ⟨p, hp⟩ := hread hbefore after
    rw [readTokens_after_spaces hafter] at hp
    refine Eq.trans ?_ hp
    rw [h.eq]
    cases before with
    | nil => exact read_of_ne (by decide) _
    | cons c before =>
      refine read_of_ne ?_ _
      rintro rfl
      cases hbefore _ List.mem_cons_self
  · rw [read_eq_ok_iff] at hok
    obtain ⟨p, hp⟩ := hread (spaces_of_read_obj hbefore hok) after
    rw [hok] at hp
    cases outcome with
    | error excess => cases hp
    | ok ms' =>
      obtain hms := eq_of_readTokens_after hp.symm
      exact congrArg Except.ok (Value.obj.inj hms)

/-- No part of the text of an object holds a line break and a backtick, but no quote. -/
theorem ObjectCore.solid (h : ObjectCore core inner) {front x rest : List Char}
    (hcore : core = front ++ (x ++ rest)) (hquote : '"' ∉ x) (hbreak : '\n' ∈ x) : '`' ∉ x := by
  intro hbacktick
  obtain ⟨outcome, houtcome⟩ := h.outcome
  obtain ⟨ts, p', hcut, -⟩ := houtcome 0 []
  have hspoiled : Spoiled (tokens 0 core) :=
    spoiled_of_exposed ⟨front, x, rest, hcore, hquote, hbacktick, fun _ => hbreak⟩ 0
  obtain ⟨l, hl, hsound⟩ := hspoiled.exists_mem
  have htokens := hcut.tokens_eq
  rw [List.append_nil] at htokens
  rw [htokens, tokens] at hl
  rcases List.mem_append.1 hl with hl | hl
  · exact hsound (hcut.sound l hl)
  · rw [List.mem_singleton.1 hl] at hsound
    exact hsound trivial

end Json

end Dashboards
