import Dashboards.Proofs.Json.ObjectText
import Dashboards.Proposal.Basic
import Mathlib.Data.List.DropRight

/-!
# Objects embedded in prose

A reply that carries its object in prose or in a fenced block stands for the same proposal as the
object alone.  The lines that open and close a block have neither braces nor quotes, but a line
break and a backtick; no such line lies inside the text of an object, so a block holds all of an
object or nothing of it.
-/

namespace Dashboards

namespace Embedded

open Json

/-! ## 1. Parts around a character -/

variable {cs rest body : List Char}

/-- A part of a text without a certain character lies before it or behind it. -/
theorem before_or_behind {a x b p r : List Char} {c : Char} (hc : c ∉ x)
    (h : a ++ (x ++ b) = p ++ c :: r) :
    (∃ t, p = a ++ (x ++ t) ∧ b = t ++ c :: r) ∨ ∃ t, a = p ++ c :: t ∧ r = t ++ (x ++ b) := by
  obtain ⟨u, hp, hu⟩ | ⟨u, ha, hu⟩ := List.append_eq_append_iff.1 h
  · obtain ⟨t, rfl, hb⟩ | ⟨t, rfl, hr⟩ := List.append_eq_append_iff.1 hu
    · exact .inl ⟨t, hp, hb⟩
    · cases t with
      | nil => exact .inl ⟨[], by simpa using hp, hr.symm⟩
      | cons d t =>
        obtain rfl := (List.cons.inj hr).1
        exact absurd (List.mem_append_right _ List.mem_cons_self) hc
  · cases u with
    | nil =>
      cases x with
      | nil => exact .inl ⟨[], by simpa using ha.symm, hu.symm⟩
      | cons d x =>
        obtain rfl := (List.cons.inj hu).1
        exact absurd List.mem_cons_self hc
    | cons d u =>
      obtain ⟨rfl, hr⟩ := List.cons.inj hu
      exact .inr ⟨u, ha, hr⟩

/-- What is dropped in front of a character that stays is dropped in front of it. -/
theorem dropWhile_append_cons {p : Char → Bool} {c : Char} (hc : p c = false) (a r : List Char) :
    (a ++ c :: r).dropWhile p = a.dropWhile p ++ c :: r := by
  rw [List.dropWhile_append, List.dropWhile_cons_of_neg (by simp [hc])]
  split
  · rename_i hnil
    rw [List.isEmpty_iff.1 hnil, List.nil_append]
  · rfl

/-- Trimming does not go beyond characters that stay. -/
theorem trimBoth_append {p : Char → Bool} {c d : Char} (hc : p c = false) (hd : p d = false)
    (a m b : List Char) :
    trimBoth p (a ++ (c :: (m ++ [d]) ++ b)) =
      a.dropWhile p ++ (c :: (m ++ [d]) ++ b.rdropWhile p) := by
  have hreverse : (a.dropWhile p ++ (c :: (m ++ [d]) ++ b)).reverse =
      b.reverse ++ d :: (a.dropWhile p ++ c :: m).reverse := by simp
  rw [trimBoth, List.cons_append, dropWhile_append_cons hc, ← List.cons_append, hreverse,
    dropWhile_append_cons hd]
  simp [List.rdropWhile]

theorem mem_of_mem_dropWhile {p : Char → Bool} {c : Char} {a : List Char}
    (h : c ∈ a.dropWhile p) : c ∈ a :=
  (List.dropWhile_suffix p).subset h

theorem mem_of_mem_trimBoth {p : Char → Bool} {c : Char} {a : List Char}
    (h : c ∈ trimBoth p a) : c ∈ a :=
  mem_of_mem_dropWhile ((List.rdropWhile_prefix p (a.dropWhile p)).subset h)

/-! ## 2. Fenced blocks -/

/-- Characters between which a block is opened or closed: blanks, a fence and the name of a language,
and at least one line break and one backtick among them. -/
structure Edge (x : List Char) : Prop where
  breaks : '\n' ∈ x
  ticks : '`' ∈ x
  noQuote : '"' ∉ x
  noOpening : '\x7b' ∉ x
  noClosing : '\x7d' ∉ x

/-- Nothing of an edge needs a second look but blanks. -/
theorem edge_of_blanks {x : List Char} (hbreaks : '\n' ∈ x) (hticks : '`' ∈ x)
    (hall : ∀ c ∈ x, isBlank c = true ∨ c ∈ ['`', 'j', 's', 'o', 'n']) : Edge x := by
  refine ⟨hbreaks, hticks, fun h => ?_, fun h => ?_, fun h => ?_⟩ <;>
    exact absurd (hall _ h) (by decide)

/-- A line break, blanks and a fence. -/
theorem closesBlock_iff :
    closesBlock cs = true ↔ ∃ blanks rest, cs = '\n' :: (blanks ++ (fence ++ rest)) ∧
      ∀ c ∈ blanks, isBlank c = true := by
  constructor
  · intro h
    unfold closesBlock at h
    split at h
    · rename_i rest
      obtain ⟨after, hafter⟩ := List.isPrefixOf_iff_prefix.1 h
      refine ⟨rest.takeWhile isBlank, after, ?_, List.all_eq_true.1 List.all_takeWhile⟩
      rw [hafter, List.takeWhile_append_dropWhile]
    · cases h
  · rintro ⟨blanks, rest, rfl, hblanks⟩
    show fence.isPrefixOf ((blanks ++ '`' :: ('`' :: '`' :: rest)).dropWhile isBlank) = true
    rw [dropWhile_append_cons (by decide), List.dropWhile_eq_nil_iff.2 hblanks]
    rfl

/-- Where a block is closed, an edge stands in front. -/
theorem exists_edge_of_closesBlock (h : closesBlock cs = true) :
    ∃ closing after, Edge closing ∧ cs = closing ++ after := by
  obtain ⟨blanks, rest, rfl, hblanks⟩ := closesBlock_iff.1 h
  refine ⟨'\n' :: (blanks ++ fence), rest, edge_of_blanks (by simp) (by simp [fence]) ?_, by simp⟩
  intro c hc
  simp only [List.mem_cons, List.mem_append] at hc
  rcases hc with rfl | hc | hc
  · exact .inl (by decide)
  · exact .inl (hblanks c hc)
  · simp only [fence, List.mem_cons, List.not_mem_nil, or_false, or_self] at hc
    exact .inr (by simp [hc])

theorem untilClosed?_spec (h : untilClosed? cs = some body) :
    ∃ rest, cs = body ++ rest ∧ closesBlock rest = true := by
  induction cs generalizing body with
  | nil => cases h
  | cons c cs ih =>
    rw [untilClosed?] at h
    split at h
    · rename_i hcloses
      obtain rfl := Option.some.inj h
      exact ⟨_, rfl, hcloses⟩
    · obtain ⟨inner, hinner, rfl⟩ := Option.map_eq_some_iff.1 h
      obtain ⟨rest, rfl, hcloses⟩ := ih hinner
      exact ⟨rest, rfl, hcloses⟩

/-- A body begins behind blanks, the last of which is a line break, and ends where it is closed. -/
theorem body?_spec (h : body? cs = some body) :
    ∃ blanks rest, cs = blanks ++ '\n' :: (body ++ rest) ∧ (∀ c ∈ blanks, isBlank c = true) ∧
      closesBlock rest = true := by
  induction cs generalizing body with
  | nil => cases h
  | cons c cs ih =>
    rw [body?] at h
    split at h
    · rename_i hblank
      cases hlater : body? cs with
      | some found =>
        rw [hlater, Option.some_or] at h
        obtain rfl := Option.some.inj h
        obtain ⟨blanks, rest, rfl, hblanks, hcloses⟩ := ih hlater
        exact ⟨c :: blanks, rest, rfl, List.forall_mem_cons.2 ⟨hblank, hblanks⟩, hcloses⟩
      | none =>
        rw [hlater, Option.none_or, Option.ite_none_right_eq_some, beq_iff_eq] at h
        obtain ⟨rfl, hclosed⟩ := h
        obtain ⟨rest, rfl, hcloses⟩ := untilClosed?_spec hclosed
        exact ⟨[], rest, rfl, List.forall_mem_nil _, hcloses⟩
    · cases h

theorem skipWord_spec (word cs : List Char) :
    ∃ label, (label = [] ∨ label = word) ∧ cs = label ++ skipWord word cs := by
  unfold skipWord
  split
  · rename_i hfront
    obtain ⟨rest, rfl⟩ := List.isPrefixOf_iff_prefix.1 hfront
    exact ⟨word, .inr rfl, by rw [List.drop_left]⟩
  · exact ⟨[], .inl rfl, rfl⟩

/-- A block is a body between two edges. -/
theorem exists_edges_of_blockAt? (h : blockAt? cs = some body) :
    ∃ opening closing after, Edge opening ∧ Edge closing ∧
      cs = opening ++ (body ++ (closing ++ after)) := by
  rw [blockAt?, Option.ite_none_right_eq_some] at h
  obtain ⟨hfence, h⟩ := h
  obtain ⟨tail, rfl⟩ := List.isPrefixOf_iff_prefix.1 hfence
  rw [List.drop_left] at h
  obtain ⟨label, hlabel, htail⟩ := skipWord_spec "json".toList tail
  obtain ⟨blanks, rest, hbody, hblanks, hcloses⟩ := body?_spec h
  obtain ⟨closing, after, hclosing, rfl⟩ := exists_edge_of_closesBlock hcloses
  refine ⟨fence ++ (label ++ (blanks ++ ['\n'])), closing, after,
    edge_of_blanks (by simp) (by simp [fence]) ?_, hclosing, ?_⟩
  · have hletters : ∀ c ∈ label, c ∈ ['`', 'j', 's', 'o', 'n'] := by
      rcases hlabel with rfl | rfl
      · exact List.forall_mem_nil _
      · show ∀ c ∈ ['j', 's', 'o', 'n'], c ∈ ['`', 'j', 's', 'o', 'n']
        exact fun c hc => List.mem_cons_of_mem _ hc
    intro c hc
    simp only [List.mem_append, List.mem_singleton] at hc
    rcases hc with hc | hc | hc | rfl
    · simp only [fence, List.mem_cons, List.not_mem_nil, or_false, or_self] at hc
      exact .inr (by simp [hc])
    · exact .inr (hletters c hc)
    · exact .inl (hblanks c hc)
    · exact .inl (by decide)
  · rw [htail, hbody]
    simp

theorem exists_edges_of_fenced? (h : fenced? cs = some body) :
    ∃ before opening closing after, Edge opening ∧ Edge closing ∧
      cs = before ++ (opening ++ (body ++ (closing ++ after))) := by
  induction cs with
  | nil => cases h
  | cons c cs ih =>
    rw [fenced?, Option.or_eq_some_iff] at h
    rcases h with h | ⟨-, h⟩
    · obtain ⟨opening, closing, after, hopening, hclosing, heq⟩ := exists_edges_of_blockAt? h
      exact ⟨[], opening, closing, after, hopening, hclosing, heq⟩
    · obtain ⟨before, opening, closing, after, hopening, hclosing, rfl⟩ := ih h
      exact ⟨c :: before, opening, closing, after, hopening, hclosing, rfl⟩

/-! ## 3. Objects in prose -/

variable {core inner : List Char}

/-- Trimming leaves the braces of an object. -/
theorem trimBoth_core (h : ObjectCore core inner) (a b : List Char) :
    trimBoth isBlank (a ++ (core ++ b)) =
      a.dropWhile isBlank ++ (core ++ b.rdropWhile isBlank) := by
  rw [h.eq]
  exact trimBoth_append (by decide) (by decide) a inner b

/-- Trimming leaves the fences of a block. -/
theorem trimBoth_fences (a m b : List Char) :
    trimBoth isBlank (a ++ (fence ++ (m ++ (fence ++ b)))) =
      a.dropWhile isBlank ++ (fence ++ (m ++ (fence ++ b.rdropWhile isBlank))) := by
  have htrim := trimBoth_append (p := isBlank) (c := '`') (d := '`') (by decide) (by decide) a
    ('`' :: '`' :: (m ++ ['`', '`'])) b
  simpa [fence] using htrim

/-- No edge lies inside the text of an object. -/
theorem not_inside (h : ObjectCore core inner) {front x back : List Char} (hx : Edge x) :
    inner ≠ front ++ (x ++ back) := by
  intro hinner
  have hcore : core = '\x7b' :: front ++ (x ++ (back ++ ['\x7d'])) := by
    rw [h.eq, hinner]
    simp
  exact h.solid hcore hx.noQuote hx.breaks hx.ticks

/-- A block in a text with an object holds the object with no brace before it, or no brace. -/
theorem body_of_fenced? (h : ObjectCore core inner) {before after : List Char}
    (hbefore : '\x7b' ∉ before) (hafter : '\x7b' ∉ after)
    (hfenced : fenced? (before ++ (core ++ after)) = some body) :
    '\x7b' ∉ body ∨ ∃ t u, '\x7b' ∉ t ∧ body = t ++ (core ++ u) := by
  obtain ⟨front, opening, closing, back, hopening, hclosing, heq⟩ := exists_edges_of_fenced? hfenced
  have hcore (u : List Char) : core ++ u = '\x7b' :: (inner ++ '\x7d' :: u) := by
    rw [h.eq]
    simp
  rw [hcore] at heq
  obtain ⟨t, ht, hbody⟩ | ⟨t, hfront, hbody⟩ := before_or_behind hopening.noOpening heq.symm
  · -- The block is opened in front of the object.
    obtain ⟨u, hu, -⟩ | ⟨u, hu, hback⟩ := before_or_behind hclosing.noOpening hbody
    · refine .inl fun hmem => hbefore ?_
      rw [ht, hu]
      simp [hmem]
    · obtain ⟨v, hv, -⟩ | ⟨v, hv, -⟩ := before_or_behind hclosing.noClosing hback.symm
      · exact absurd hv (not_inside h hclosing)
      · refine .inr ⟨t, v, fun hmem => hbefore ?_, ?_⟩
        · rw [ht]
          simp [hmem]
        · rw [hu, hv, hcore]
  · -- It is opened behind the first brace of the object, hence behind its last one.
    obtain ⟨u, hu, -⟩ | ⟨u, hu, hback⟩ := before_or_behind hopening.noClosing hbody.symm
    · exact absurd hu (not_inside h hopening)
    · refine .inl fun hmem => hafter ?_
      rw [hback]
      simp [hmem]

/-- All that stands in front of the first brace is dropped. -/
theorem dropWhile_ne_append {c : Char} {a : List Char} (ha : c ∉ a) (r : List Char) :
    (a ++ c :: r).dropWhile (· ≠ c) = c :: r := by
  rw [dropWhile_append_cons (by simp), List.dropWhile_eq_nil_iff.2, List.nil_append]
  rintro d hd
  rw [decide_eq_true_eq]
  rintro rfl
  exact ha hd

/-- With no braces around it, an object is what stands between the outermost braces. -/
theorem braced?_append (h : ObjectCore core inner) {before after : List Char}
    (hbefore : '\x7b' ∉ before) (hafter : '\x7d' ∉ after) :
    braced? (before ++ (core ++ after)) = some core := by
  obtain rfl := h.eq
  have hopened := dropWhile_ne_append hbefore (inner ++ ['\x7d'] ++ after)
  have hreverse : ('\x7b' :: (inner ++ ['\x7d'] ++ after)).reverse =
      after.reverse ++ '\x7d' :: (inner.reverse ++ ['\x7b']) := by simp
  have hclosed := dropWhile_ne_append (by simpa using hafter : '\x7d' ∉ after.reverse)
    (inner.reverse ++ ['\x7b'])
  rw [braced?, List.cons_append, hopened, hreverse, hclosed]
  simp

/-! ## 4. Objects in blocks -/

/-- Nothing of a text closes a block, as far as closings of blocks in it are closings of its own. -/
theorem untilClosed?_append {front : List Char}
    (h : ∀ u v, front = u ++ v → v ≠ [] → closesBlock (v ++ rest) = false) :
    untilClosed? (front ++ rest) = (untilClosed? rest).map (front ++ ·) := by
  induction front with
  | nil => exact (congrFun Option.map_id _).symm
  | cons c front ih =>
    have hfirst : ¬ closesBlock (c :: (front ++ rest)) = true := by
      rw [← List.cons_append, h [] _ rfl (List.cons_ne_nil _ _)]
      exact Bool.false_ne_true
    rw [List.cons_append, untilClosed?, if_neg hfirst, ih, Option.map_map]
    · rfl
    · rintro u v rfl hv
      exact h (c :: u) v rfl hv

/-- Within the text of an object no block is closed. -/
theorem not_closesBlock_of_core (h : ObjectCore core inner) {u v : List Char} (hcore : core = u ++ v)
    (hv : v ≠ []) : closesBlock (v ++ rest) = false := by
  by_contra hcloses
  obtain ⟨closing, after, hclosing, heq⟩ := exists_edge_of_closesBlock (Bool.not_eq_false _ ▸ hcloses)
  have hlast : v.getLast? = some '\x7d' := by
    have hlast : core.getLast? = some '\x7d' := by
      rw [h.eq, ← List.cons_append, List.getLast?_concat]
    rwa [hcore, List.getLast?_append_of_ne_nil _ hv] at hlast
  obtain ⟨w, rfl⟩ := List.getLast?_eq_some_iff.1 hlast
  -- The last brace comes behind the closing, so all of the closing would be within the object.
  have heq : [] ++ (closing ++ after) = w ++ '\x7d' :: rest := by
    rw [List.nil_append, ← heq, List.append_assoc, List.singleton_append]
  obtain ⟨t, rfl, -⟩ | ⟨t, hnil, -⟩ := before_or_behind hclosing.noClosing heq
  · have hwithin : core = u ++ (closing ++ (t ++ ['\x7d'])) := by
      rw [hcore]
      simp
    exact h.solid hwithin hclosing.noQuote hclosing.breaks hclosing.ticks
  · exact absurd hnil.symm (List.append_ne_nil_of_right_ne_nil _ (List.cons_ne_nil _ _))

theorem closesBlock_closing (after : List Char) : closesBlock ('\n' :: (fence ++ after)) = true :=
  closesBlock_iff.2 ⟨[], after, rfl, List.forall_mem_nil _⟩

/-- White space in front of the closing of a block may lie within the block. -/
theorem untilClosed?_spaces {a : List Char} (ha : Spaces a) (after : List Char) :
    ∃ b, Spaces b ∧ untilClosed? (a ++ '\n' :: (fence ++ after)) = some b := by
  induction a with
  | nil =>
    refine ⟨[], List.forall_mem_nil _, ?_⟩
    rw [List.nil_append, untilClosed?, if_pos (closesBlock_closing after)]
  | cons c a ih =>
    obtain ⟨hc, ha⟩ := List.forall_mem_cons.1 ha
    obtain ⟨b, hb, huntil⟩ := ih ha
    rw [List.cons_append, untilClosed?, huntil]
    split
    · exact ⟨[], List.forall_mem_nil _, rfl⟩
    · exact ⟨c :: b, List.forall_mem_cons.2 ⟨hc, hb⟩, rfl⟩

theorem isBlank_of_isSpace {c : Char} (h : isSpace c = true) : isBlank c = true := by
  simp only [isSpace, Bool.or_eq_true, beq_iff_eq, or_assoc] at h
  rcases h with rfl | rfl | rfl | rfl <;> decide

theorem untilClosed?_of_no_break {b : List Char} (hb : '\n' ∉ b) (cs : List Char) :
    untilClosed? (b ++ cs) = (untilClosed? cs).map (b ++ ·) := by
  refine untilClosed?_append fun u v hbv hv => ?_
  obtain ⟨c, v, rfl⟩ := List.exists_cons_of_ne_nil hv
  rw [List.cons_append, closesBlock]
  intro rest heq
  obtain rfl := (List.cons.inj heq).1
  rw [hbv] at hb
  exact hb (List.mem_append_right _ List.mem_cons_self)

/-- Of the line breaks in front of a body, the last one ends the opening line. -/
theorem body?_spaces {b z : List Char} (hb : Spaces b) (hz : untilClosed? cs = some z)
    (hcs : body? cs = none) :
    body? (b ++ cs) = none ∧ '\n' ∉ b ∨ ∃ b', Spaces b' ∧ body? (b ++ cs) = some (b' ++ z) := by
  induction b with
  | nil => exact .inl ⟨hcs, List.not_mem_nil⟩
  | cons c b ih =>
    obtain ⟨hc, hb⟩ := List.forall_mem_cons.1 hb
    rw [List.cons_append, body?, if_pos (isBlank_of_isSpace hc)]
    rcases ih hb with ⟨hnone, hbreak⟩ | ⟨b', hb', hsome⟩
    · rw [hnone, Option.none_or]
      by_cases hc : c = '\n'
      · refine .inr ⟨b, hb, ?_⟩
        rw [if_pos (beq_iff_eq.2 hc), untilClosed?_of_no_break hbreak, hz]
        rfl
      · refine .inl ⟨if_neg (by simpa using hc), ?_⟩
        exact fun hmem => (List.mem_cons.1 hmem).elim (fun h => hc h.symm) hbreak
    · exact .inr ⟨b', hb', by rw [hsome, Option.some_or]⟩

/-- The body of a block that holds the text of an object is that text, perhaps without some of the
white space around it. -/
theorem body?_object (h : ObjectCore core inner) {b a : List Char} (hb : Spaces b)
    (ha : Spaces a) (after : List Char) :
    ∃ b' a', Spaces b' ∧ Spaces a' ∧
      body? ('\n' :: (b ++ (core ++ (a ++ '\n' :: (fence ++ after))))) =
        some (b' ++ (core ++ a')) := by
  obtain ⟨a', ha', huntil⟩ := untilClosed?_spaces ha after
  have hcore : untilClosed? (core ++ (a ++ '\n' :: (fence ++ after))) = some (core ++ a') := by
    rw [untilClosed?_append (fun u v => not_closesBlock_of_core h), huntil]
    rfl
  have hnone : body? (core ++ (a ++ '\n' :: (fence ++ after))) = none := by
    rw [h.eq]
    rfl
  have hbreak : Spaces ('\n' :: b) := List.forall_mem_cons.2 ⟨rfl, hb⟩
  rcases body?_spaces hbreak hcore hnone with ⟨-, hmem⟩ | ⟨b', hb', hbody⟩
  · exact absurd List.mem_cons_self hmem
  · exact ⟨b', a', hb', ha', hbody⟩

theorem blockAt?_label {label : List Char} (hlabel : label = [] ∨ label = "json".toList)
    (cs : List Char) : blockAt? (fence ++ (label ++ '\n' :: cs)) = body? ('\n' :: cs) := by
  rcases hlabel with rfl | rfl <;> rfl

theorem blockAt?_tick (hcs : cs.drop fence.length = '`' :: rest) : blockAt? cs = none := by
  rw [blockAt?, hcs]
  split <;> rfl

/-- With no fence before it, a block is opened by the fence itself, not a backtick or two earlier. -/
theorem fenced?_append {front : List Char} (hfront : ¬ fence <:+: front) (cs : List Char) :
    fenced? (front ++ (fence ++ cs)) = fenced? (fence ++ cs) := by
  induction front with
  | nil => rfl
  | cons c front ih =>
    have hfirst : blockAt? (c :: (front ++ (fence ++ cs))) = none := by
      match front with
      | [] => exact blockAt?_tick rfl
      | [_] => exact blockAt?_tick rfl
      | d :: e :: front =>
        have hnot : ¬ fence.isPrefixOf (c :: d :: e :: (front ++ (fence ++ cs))) = true := by
          intro hfence
          obtain ⟨more, hmore⟩ := List.isPrefixOf_iff_prefix.1 hfence
          obtain ⟨hc, hmore⟩ := List.cons.inj hmore
          obtain ⟨hd, hmore⟩ := List.cons.inj hmore
          obtain ⟨he, -⟩ := List.cons.inj hmore
          exact hfront ⟨[], front, by rw [← hc, ← hd, ← he]; rfl⟩
        exact if_neg hnot
    rw [List.cons_append, fenced?, hfirst, Option.none_or]
    exact ih fun hpart => hfront (hpart.trans (List.suffix_cons c front).isInfix)

/-- The first block is the one that the text of an object stands in. -/
theorem fenced?_object (h : ObjectCore core inner) {front label b a : List Char}
    (hfront : ¬ fence <:+: front) (hlabel : label = [] ∨ label = "json".toList) (hb : Spaces b)
    (ha : Spaces a) (after : List Char) :
    ∃ b' a', Spaces b' ∧ Spaces a' ∧
      fenced? (front ++ (fence ++ (label ++ '\n' :: (b ++ (core ++
        (a ++ '\n' :: (fence ++ after))))))) = some (b' ++ (core ++ a')) := by
  obtain ⟨b', a', hb', ha', hbody⟩ := body?_object h hb ha after
  refine ⟨b', a', hb', ha', ?_⟩
  rw [fenced?_append hfront, show fence = '`' :: ['`', '`'] from rfl, List.cons_append, fenced?,
    ← List.cons_append]
  have hblock := blockAt?_label hlabel (b ++ (core ++ (a ++ '\n' :: (fence ++ after))))
  rw [hbody] at hblock
  exact (congrArg (Option.or · _) hblock).trans Option.some_or

/-! ## 5. The first object -/

variable {outcome : Except Excess (Members Value)}

theorem objectOf?_of_read {text : String} (h : read text = answer outcome) :
    objectOf? text = outcome.map some := by
  rw [objectOf?, h]
  cases outcome <;> rfl

/-- A place that says nothing else does not change what is found. -/
theorem objectOf?_cases {text : String}
    (hok : ∀ ms, read text = .ok (.obj ms) → outcome = .ok ms)
    (hbeyond : ∀ excess, read text = .error (.beyond excess) → outcome = .error excess) :
    objectOf? text = .ok none ∨ objectOf? text = outcome.map some := by
  unfold objectOf?
  split
  · rename_i ms hread
    exact .inr (by rw [hok ms hread]; rfl)
  · exact .inl rfl
  · exact .inl rfl
  · rename_i excess hread
    exact .inr (by rw [hbeyond excess hread]; rfl)

theorem firstObject?_append {front : List String} {text : String}
    (hfront : ∀ other ∈ front, objectOf? other = .ok none ∨ objectOf? other = outcome.map some)
    (h : objectOf? text = outcome.map some) (back : List String) :
    firstObject? (front ++ text :: back) = outcome.map some := by
  have hfound {other : String} (hother : objectOf? other = outcome.map some) (back : List String) :
      firstObject? (other :: back) = outcome.map some := by
    rw [firstObject?, hother]
    cases outcome <;> rfl
  induction front with
  | nil => exact hfound h back
  | cons other front ih =>
    obtain ⟨hother, hfront⟩ := List.forall_mem_cons.1 hfront
    rcases hother with hother | hother
    · rw [List.cons_append, firstObject?, hother]
      exact ih hfront
    · exact hfound hother _

theorem objectOf?_core (hreads : ReadsAs core outcome) :
    objectOf? (String.ofList core) = outcome.map some := by
  have halone := hreads.alone (List.forall_mem_nil _) (List.forall_mem_nil _)
  rw [List.nil_append, List.append_nil] at halone
  exact objectOf?_of_read halone

theorem find?_core (hreads : ReadsAs core outcome) :
    find? (String.ofList core) = outcome.map some :=
  firstObject?_append (List.forall_mem_nil _) (objectOf?_core hreads) _

/-- What is found in a text with an object, as far as the text goes beyond a bound only where the
object does. -/
theorem find?_prose (h : ObjectCore core inner) (hreads : ReadsAs core outcome)
    {before after : List Char} (hbefore : '\x7b' ∉ before) (hopening : '\x7b' ∉ after)
    (hclosing : '\x7d' ∉ after)
    (hbound : ∀ place ∈ places (String.ofList (before ++ (core ++ after))), ∀ excess,
      read place = .error (.beyond excess) → outcome = .error excess) :
    find? (String.ofList (before ++ (core ++ after))) = outcome.map some := by
  have hcore := objectOf?_core hreads
  have hplaces : places (String.ofList (before ++ (core ++ after))) =
      (String.ofList (before ++ (core ++ after)) :: ((fenced? (before ++ (core ++ after))).map
        fun body => String.ofList (trimBoth isBlank body)).toList) ++ [String.ofList core] := by
    rw [places, String.toList_ofList, braced?_append h hbefore hclosing]
    cases fenced? (before ++ (core ++ after)) <;> rfl
  rw [find?, hplaces]
  rw [hplaces] at hbound
  refine firstObject?_append (fun other hother => ?_) hcore []
  refine objectOf?_cases (fun ms hread => ?_) (hbound other (List.mem_append_left _ hother))
  rcases List.mem_cons.1 hother with rfl | hother
  · exact hreads.within hbefore hread
  · obtain ⟨body, hfenced, rfl⟩ := Option.map_eq_some_iff.1 (Option.mem_toList.1 hother)
    rcases body_of_fenced? h hbefore hopening hfenced with hnone | ⟨t, u, ht, rfl⟩
    · exact absurd (mem_of_mem_trimBoth (brace_mem_of_read_obj hread)) hnone
    · rw [trimBoth_core h] at hread
      exact hreads.within (fun hmem => ht (mem_of_mem_dropWhile hmem)) hread

/-- A line break and a fence in front of an object, but no quote between them, leave the whole text
unread. -/
theorem read_ne_ok_of_exposed {cs : List Char} (h : Exposed cs) (v : Value) :
    read (String.ofList cs) ≠ .ok v := by
  rw [Ne, read_eq_ok_iff]
  exact (spoiled_of_exposed h 0).readTokens_ne_ok

/-- What is found in a text with an object in its first block, as far as the text goes beyond a
bound only where the object does. -/
theorem find?_block (h : ObjectCore core inner) (hreads : ReadsAs core outcome)
    {front label b a : List Char} (hfront : ¬ fence <:+: front)
    (hlabel : label = [] ∨ label = "json".toList) (hb : Spaces b) (ha : Spaces a)
    (after : List Char) {whole : List Char}
    (hwhole : whole = front ++ (fence ++ (label ++ '\n' :: (b ++ (core ++
      (a ++ '\n' :: (fence ++ after)))))))
    (hbound : ∀ excess, read (String.ofList whole) = .error (.beyond excess) →
      outcome = .error excess) :
    find? (String.ofList whole) = outcome.map some := by
  obtain ⟨b', a', hb', ha', hfenced⟩ := fenced?_object h hfront hlabel hb ha after
  rw [← hwhole] at hfenced
  have hexposed : Exposed whole := by
    refine ⟨front, fence ++ (label ++ ['\n']), b ++ (core ++ (a ++ '\n' :: (fence ++ after))),
      by rw [hwhole]; simp, ?_, by simp [fence], by simp⟩
    rcases hlabel with rfl | rfl <;> decide
  have hbody : objectOf? (String.ofList (trimBoth isBlank (b' ++ (core ++ a')))) =
      outcome.map some := by
    rw [trimBoth_core h]
    refine objectOf?_of_read (hreads.alone (fun c hc => hb' c (mem_of_mem_dropWhile hc)) ?_)
    exact fun c hc => ha' c ((List.rdropWhile_prefix _ _).subset hc)
  have hplaces : places (String.ofList whole) = [String.ofList whole] ++
      String.ofList (trimBoth isBlank (b' ++ (core ++ a'))) ::
        ((braced? whole).map String.ofList).toList := by
    rw [places, String.toList_ofList, hfenced]
    cases braced? whole <;> rfl
  rw [find?, hplaces]
  refine firstObject?_append (List.forall_mem_singleton.2 ?_) hbody _
  exact objectOf?_cases (fun ms hread => absurd hread (read_ne_ok_of_exposed hexposed _)) hbound

end Embedded

/-! ## 6. Proposals -/

namespace Proposal

open Json Embedded

variable {outcome : Except Excess (Members Value)}

/-- What a reply stands for in which an object is found or a bound is gone beyond. -/
def settled (outcome : Except Excess (Members Value)) : Except Fault Proposal :=
  match outcome with
  | .ok ms => ofMembers ms
  | .error excess => .error (.beyond excess)

theorem find?_empty : find? "" = .ok none := by
  have hread : Json.read "" = wrong .expectingValue 0 := by
    show readTokens (tokens 0 []) [] .value = _
    rw [tokens]
    rfl
  show firstObject? [""] = _
  rw [firstObject?, objectOf?, hread]
  rfl

theorem parse_of_find? {s : String} (h : find? (trimBlank s) = outcome.map some) :
    parse (.str s) = settled outcome := by
  have hne : trimBlank s ≠ "" := by
    intro hempty
    rw [hempty, find?_empty] at h
    cases outcome <;> cases h
  rw [parse, if_neg hne, h]
  cases outcome <;> rfl

/-- Every place of a reply in which an object may be found goes beyond a bound only as the text
`J` does. -/
def BeyondOnlyAs (J : String) (places : List String) : Prop :=
  ∀ place ∈ places, ∀ excess, Json.read place = .error (.beyond excess) →
    Json.read J = .error (.beyond excess)

/-- A reply that carries the text of an object stands for the same proposal, or has the same fault,
as the object alone: if there are no braces around it, and if it stands in the first fenced block,
whatever is around that.  What is around it must not be read beyond the bounds of the reader. -/
theorem parse_surrounded (J : String) (hJ : ObjectText J.toList) :
    (∀ pre suf : String, '\x7b' ∉ pre.toList → '\x7b' ∉ suf.toList → '\x7d' ∉ suf.toList →
      BeyondOnlyAs J (places (trimBlank (pre ++ J ++ suf))) →
        parse (.str (pre ++ J ++ suf)) = parse (.str J)) ∧
    ∀ pre label suf : String, ¬ "```".toList <:+: pre.toList → label = "" ∨ label = "json" →
      BeyondOnlyAs J [trimBlank (pre ++ "```" ++ label ++ "\n" ++ J ++ "\n```" ++ suf)] →
        parse (.str (pre ++ "```" ++ label ++ "\n" ++ J ++ "\n```" ++ suf)) = parse (.str J) := by
  obtain ⟨b, core, inner, a, hb, hcore, ha, htext⟩ := hJ
  obtain ⟨outcome, hreads⟩ := hcore.reads
  have hread : Json.read J = answer outcome := by
    rw [← String.ofList_toList (s := J), htext]
    exact hreads.alone hb ha
  have hbeyond {excess : Excess} (h : Json.read J = .error (.beyond excess)) :
      outcome = .error excess := by
    rw [hread] at h
    cases outcome <;> cases h
    rfl
  have hblanks (c : List Char) (hc : Spaces c) : ∀ d ∈ c, isBlank d = true :=
    fun d hd => isBlank_of_isSpace (hc d hd)
  have hbrace {c : List Char} {d : Char} (hc : Spaces c) (hd : isSpace d = false) : d ∉ c := by
    intro hmem
    rw [hc d hmem] at hd
    cases hd
  have halone : parse (.str J) = settled outcome := by
    refine parse_of_find? ?_
    have htrim : trimBlank J = String.ofList core := by
      rw [trimBlank, htext, trimBoth_core hcore, List.dropWhile_eq_nil_iff.2 (hblanks b hb),
        List.rdropWhile_eq_nil_iff.2 (hblanks a ha), List.nil_append, List.append_nil]
    rw [htrim]
    exact find?_core hreads
  constructor
  · intro pre suf hpre hopening hclosing hbound
    rw [halone]
    refine parse_of_find? ?_
    have htrim : trimBlank (pre ++ J ++ suf) =
        String.ofList ((pre.toList ++ b).dropWhile isBlank ++
          (core ++ (a ++ suf.toList).rdropWhile isBlank)) := by
      rw [trimBlank, ← trimBoth_core hcore, String.toList_append, String.toList_append, htext]
      simp only [List.append_assoc]
    rw [htrim] at hbound ⊢
    have hafter {d : Char} (hd : isSpace d = false) (hsuf : d ∉ suf.toList) :
        d ∉ (a ++ suf.toList).rdropWhile isBlank := fun hmem =>
      (List.mem_append.1 ((List.rdropWhile_prefix _ _).subset hmem)).elim (hbrace ha hd) hsuf
    refine find?_prose hcore hreads (fun hmem => ?_) (hafter rfl hopening) (hafter rfl hclosing)
      fun place hplace excess hexcess => hbeyond (hbound place hplace excess hexcess)
    exact (List.mem_append.1 (mem_of_mem_dropWhile hmem)).elim hpre (hbrace hb rfl)
  · intro pre label suf hpre hlabel hbound
    rw [halone]
    refine parse_of_find? ?_
    have htrim : trimBlank (pre ++ "```" ++ label ++ "\n" ++ J ++ "\n```" ++ suf) =
        String.ofList (pre.toList.dropWhile isBlank ++ (fence ++ (label.toList ++
          '\n' :: (b ++ (core ++ (a ++ '\n' :: (fence ++ suf.toList.rdropWhile isBlank))))))) := by
      have htrimmed := trimBoth_fences pre.toList
        (label.toList ++ '\n' :: (b ++ (core ++ (a ++ ['\n'])))) suf.toList
      simp only [List.append_assoc, List.cons_append, List.nil_append] at htrimmed
      rw [trimBlank, ← htrimmed]
      simp only [String.toList_append, htext, List.append_assoc]
      rfl
    rw [htrim] at hbound ⊢
    refine find?_block hcore hreads ?_ ?_ hb ha _ rfl fun excess hexcess =>
      hbeyond (hbound _ (List.mem_singleton_self _) excess hexcess)
    · exact fun hpart => hpre (hpart.trans (List.dropWhile_suffix _).isInfix)
    · exact hlabel.imp (fun h => by rw [h]; rfl) (fun h => by rw [h])

/-- A reply that consists of its object. -/
def shortReply : String := "\x7b\"patch\": []\x7d"

theorem objectCore_shortReply : ObjectCore shortReply.toList "\"patch\": []".toList := by
  have hkey : Quotable "patch".toList :=
    .plain (by decide) (by decide) (by decide) <| .plain (by decide) (by decide) (by decide) <|
      .plain (by decide) (by decide) (by decide) <| .plain (by decide) (by decide) (by decide) <|
        .plain (by decide) (by decide) (by decide) .nil
  have hnone : Spaces [] := List.forall_mem_nil _
  have hmember : Grammar .members ([] ++ '"' :: ("patch".toList ++ '"' :: ([] ++ ':' ::
      ([' '] ++ (['[', ']'] ++ []))))) :=
    .member hnone hkey hnone (List.forall_mem_singleton.2 rfl) (.emptyArray hnone) hnone
  exact ⟨rfl, .inr hmember⟩

theorem objectText_shortReply : ObjectText shortReply.toList :=
  ⟨[], _, _, [], List.forall_mem_nil _, objectCore_shortReply, List.forall_mem_nil _, rfl⟩

/-- The object in prose, and in a block with braces around it. -/
theorem parse_surrounded_shortReply :
    parse (.str ("Sure: " ++ shortReply ++ "!")) = parse (.str shortReply) ∧
      parse (.str ("In \x7b\x7d:\n" ++ "```" ++ "json" ++ "\n" ++ shortReply ++ "\n```" ++
        " \x7b")) = parse (.str shortReply) := by
  obtain ⟨inProse, inBlock⟩ := parse_surrounded shortReply objectText_shortReply
  constructor
  · refine inProse "Sure: " "!" (by decide) (by decide) (by decide) ?_
    have hplaces : places (trimBlank ("Sure: " ++ shortReply ++ "!")) =
        ["Sure: " ++ shortReply ++ "!", shortReply] := by
      with_unfolding_all rfl
    have hwhole : Json.read ("Sure: " ++ shortReply ++ "!") = wrong .expectingValue 0 := by
      with_unfolding_all rfl
    rw [hplaces]
    refine List.forall_mem_cons.2 ⟨?_, List.forall_mem_singleton.2 fun _ => id⟩
    rw [hwhole]
    nofun
  · refine inBlock _ "json" _ (by decide) (.inr rfl) (List.forall_mem_singleton.2 ?_)
    have hwhole : Json.read (trimBlank ("In \x7b\x7d:\n" ++ "```" ++ "json" ++ "\n" ++
        shortReply ++ "\n```" ++ " \x7b")) = wrong .expectingValue 0 := by
      with_unfolding_all rfl
    rw [hwhole]
    nofun

/-- A number with too many digits at the front ends the search, whatever comes behind it. -/
theorem find?_overlong {digits rest : List Char} (hwhole : IsWhole digits)
    (hlong : Excess.digitLimit < digits.length) (hrest : Stops rest) :
    find? (String.ofList (digits ++ rest)) = .error (.longInteger digits.length) := by
  have htoken : numeralToken false digits [] none = .overlong digits.length := if_pos hlong
  have htokens := tokens_numeral false hwhole (List.forall_mem_nil _) .none hrest 0
  rw [htoken] at htokens
  have hread : Json.read (String.ofList (digits ++ rest)) =
      .error (.beyond (.longInteger digits.length)) := by
    obtain ⟨d, ds, rfl⟩ := List.exists_cons_of_ne_nil hwhole.nonempty
    have hmark : d ≠ '\uFEFF' := by
      rintro rfl
      cases hwhole.digits _ List.mem_cons_self
    rw [List.cons_append, read_of_ne hmark]
    have hdigits : signText false ++ (d :: ds ++ (fractionText [] ++ [])) = d :: ds := by
      simp [signText, fractionText]
    rw [hdigits, List.cons_append] at htokens
    rw [htokens]
    rfl
  have hwhole : objectOf? (String.ofList (digits ++ rest)) =
      (Except.error (.longInteger digits.length) : Except Excess (Members Value)).map some :=
    objectOf?_of_read hread
  exact firstObject?_append (List.forall_mem_nil _) hwhole _

/-- A number with one digit more than an integer may have. -/
def longNumber : String := String.ofList (List.replicate (Excess.digitLimit + 1) '1')

/-- Such a number in front of an object is enough to lose the object. -/
theorem parse_numbered_ne_parse :
    '\x7b' ∉ longNumber.toList ∧ '\x7d' ∉ longNumber.toList ∧ ObjectText shortReply.toList ∧
      parse (.str (longNumber ++ shortReply)) ≠ parse (.str shortReply) := by
  have hones : ∀ c ∈ longNumber.toList, c = '1' := by
    rw [longNumber, String.toList_ofList]
    exact fun c hc => List.eq_of_mem_replicate hc
  have hcons : longNumber.toList = '1' :: List.replicate Excess.digitLimit '1' := by
    rw [longNumber, String.toList_ofList]
    exact List.replicate_succ
  have hwhole : IsWhole longNumber.toList := by
    refine ⟨fun c hc => by rw [hones c hc]; rfl, ?_, .inl ?_⟩ <;> rw [hcons]
    · exact List.cons_ne_nil _ _
    · decide
  have hlong : Excess.digitLimit < longNumber.toList.length := by
    rw [hcons, List.length_cons, List.length_replicate]
    exact Nat.lt_succ_self _
  have hlost : parse (.str (longNumber ++ shortReply)) =
      .error (.beyond (.longInteger longNumber.toList.length)) := by
    have hstops : Stops (shortReply.toList ++ [].rdropWhile isBlank) := by
      intro c hc
      obtain rfl : '\x7b' = c := Option.some.inj hc
      decide
    have htrim := trimBoth_core objectCore_shortReply longNumber.toList []
    rw [hcons, List.dropWhile_cons_of_neg (by decide), ← hcons, List.append_nil] at htrim
    refine @parse_of_find? (.error _) _ ?_
    rw [trimBlank, String.toList_append, htrim]
    exact find?_overlong hwhole hlong hstops
  have halone : ∃ p, parse (.str shortReply) = .ok p := ⟨_, by with_unfolding_all rfl⟩
  refine ⟨fun hmem => ?_, fun hmem => ?_, objectText_shortReply, ?_⟩
  · cases hones _ hmem
  · cases hones _ hmem
  · obtain ⟨p, hp⟩ := halone
    rw [hlost, hp]
    nofun

end Proposal

end Dashboards
