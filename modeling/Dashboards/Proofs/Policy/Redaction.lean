import Dashboards.Policy.Check
import Dashboards.Proofs.Patch.Redaction

/-!
# Guardrails on redacted documents

The guardrails look at a document only where an operation goes, and at the collections and the tabs
on its way.  On two documents that differ only at places that the operation stays clear of they find
the same.
-/

namespace Dashboards

open Value (redact)

/-! ## 1. What is looked at -/

section Walks

variable {d e : Value} {places : List (List String)} {t t' p : List String}

theorem Value.Fenced.shorten (h : d.Fenced t p) (htt : t' <+: t) : d.Fenced t' p := by
  obtain ⟨s, hs, hsome, hst⟩ := h
  exact ⟨s, hs, hsome, fun hpre => hst (hpre.trans htt)⟩

/-- A walk that has passed a place at its fence may go on anywhere. -/
theorem Value.Fenced.extend (h : d.Fenced t p) (htp : ¬ t <+: p) (htt : t <+: t') :
    d.Fenced t' p := by
  obtain ⟨s, hs, hsome, hst⟩ := h
  refine ⟨s, hs, hsome, fun hpre => ?_⟩
  -- The fence and `t` lie on one way, so one of them comes first.
  rcases List.prefix_or_prefix_of_prefix hpre htt with h | h
  · exact hst h
  · exact htp (h.trans hs)

theorem Collection.itemsIn_eq_getD (c : Collection) (doc : Value) :
    c.itemsIn doc = ((doc.at? c.keys).bind Value.items?).getD [] := by
  unfold itemsIn
  cases doc.at? c.keys with
  | none => rfl
  | some v => cases v <;> rfl

theorem Collection.itemsIn_eq_of_fenced (c : Collection)
    (hfence : ∀ p ∈ places, d.Fenced c.keys p) (heq : redact d places = redact e places) :
    c.itemsIn d = c.itemsIn e := by
  rw [c.itemsIn_eq_getD, c.itemsIn_eq_getD, Value.items_at?_eq hfence heq]

/-- The collection at the end of a walk, before it or after it, has the same items. -/
theorem Collection.itemsIn_eq (c : Collection) (hfence : ∀ p ∈ places, d.Fenced t p ∧ ¬ t <+: p)
    (heq : redact d places = redact e places) (h : t <+: c.keys ∨ c.keys <+: t) :
    c.itemsIn d = c.itemsIn e := by
  refine c.itemsIn_eq_of_fenced (fun p hp => ?_) heq
  obtain ⟨hfenced, htp⟩ := hfence p hp
  rcases h with h | h
  · exact hfenced.extend htp h
  · exact hfenced.shorten h

/-- The item of a collection that a walk goes through is the same: where there are items at all, no
place lies in another one. -/
theorem Collection.at?_item_eq (c : Collection) (hfence : ∀ p ∈ places, d.Fenced t p ∧ ¬ t <+: p)
    (heq : redact d places = redact e places) {k : String} (hkt : c.keys ++ [k] <+: t)
    (hitems : c.itemsIn d ≠ []) :
    d.at? (c.keys ++ [k]) = e.at? (c.keys ++ [k]) ∧
      d.overlongAt? (c.keys ++ [k]) = e.overlongAt? (c.keys ++ [k]) := by
  refine Value.at?_eq_of_fenced (fun p hp => ⟨(hfence p hp).1.shorten hkt, fun hkp => ?_⟩) heq
  obtain ⟨s, hs, hsome, hst⟩ := (hfence p hp).1
  -- The fence would lie beyond the item, so the way to it would go through an object here.
  rcases List.prefix_or_prefix_of_prefix hs hkp with h | ⟨r, rfl⟩
  · exact hst (h.trans hkt)
  · obtain ⟨x, hx⟩ := Option.isSome_iff_exists.1 hsome
    rw [List.append_assoc] at hx
    obtain ⟨ms, hms⟩ := Value.at?_of_memberAt?_append hx
    rw [c.itemsIn_eq_getD, hms] at hitems
    exact hitems rfl

theorem Collection.keys_of_ofKeys? {c : Collection} (h : Collection.ofKeys? t = some c) :
    c.keys = t := by
  have hfound := List.find?_some h
  simpa using hfound

end Walks

namespace Policy

/-! ## 2. The guardrails -/

variable {policy : Policy} {path : String} {d e value : Value} {places : List (List String)}
  {t : List String}

theorem keys?_eq_some (h : keys? path = some t) : ∃ q, Pointer.parse path = .ok q ∧ q.keys = t := by
  unfold keys? at h
  cases hparse : Pointer.parse path with
  | error f => rw [hparse] at h; cases h
  | ok q => rw [hparse] at h; exact ⟨q, rfl, Option.some.inj h⟩

theorem addGuardrail_eq
    (hfence : ∀ t, keys? path = some t → ∀ p ∈ places, d.Fenced t p ∧ ¬ t <+: p)
    (heq : redact d places = redact e places) :
    policy.addGuardrail path d value = policy.addGuardrail path e value := by
  unfold addGuardrail
  cases hkeys : keys? path with
  | none => rfl
  | some t =>
    dsimp only [bind, Option.bind]
    cases hc : (if t.isEmpty = true then none else Collection.ofKeys? t.dropLast) with
    | none => rfl
    | some c =>
      have hpre : c.keys <+: t := by
        by_cases hempty : t.isEmpty = true
        · rw [if_pos hempty] at hc
          cases hc
        · rw [if_neg hempty] at hc
          rw [Collection.keys_of_ofKeys? hc]
          exact List.dropLast_prefix t
      dsimp only
      unfold Collection.lengthIn
      rw [c.itemsIn_eq (hfence t hkeys) heq (.inr hpre)]

theorem removalObjection_eq (hfence : ∀ p ∈ places, d.Fenced t p ∧ ¬ t <+: p)
    (heq : redact d places = redact e places) (holder : Collection) :
    policy.removalObjection path t d holder = policy.removalObjection path t e holder := by
  unfold removalObjection
  by_cases hparent : t.dropLast = holder.keys
  · obtain ⟨hat, hoverlong⟩ := Value.at?_eq_of_fenced hfence heq
    rw [if_pos hparent, if_pos hparent, hat, hoverlong]
  · rw [if_neg hparent, if_neg hparent]
    by_cases habove : t.isPrefixOf holder.keys = true
    · rw [if_pos habove, if_pos habove,
        holder.itemsIn_eq hfence heq (.inl (List.isPrefixOf_iff_prefix.1 habove))]
    · rw [if_neg habove, if_neg habove]

theorem removeGuardrail_eq
    (hfence : ∀ t, keys? path = some t → ∀ p ∈ places, d.Fenced t p ∧ ¬ t <+: p)
    (heq : redact d places = redact e places) :
    policy.removeGuardrail path d = policy.removeGuardrail path e := by
  unfold removeGuardrail
  cases hkeys : keys? path with
  | none => rfl
  | some t =>
    have hholder : policy.removalObjection path t d = policy.removalObjection path t e := by
      funext holder
      exact removalObjection_eq (hfence t hkeys) heq holder
    dsimp only [bind, Option.bind]
    rw [hholder]

theorem overwriteObjection_of_unrelated {inserting : Bool} {holder : Collection}
    (habove : ¬ t <+: holder.keys) (hbelow : ¬ holder.keys <+: t) :
    policy.overwriteObjection t d value inserting holder = none := by
  rw [← List.isPrefixOf_iff_prefix, Bool.not_eq_true] at habove hbelow
  unfold overwriteObjection droppedNames
  simp [habove, hbelow]

theorem overwriteObjection_eq (hfence : ∀ p ∈ places, d.Fenced t p ∧ ¬ t <+: p)
    (heq : redact d places = redact e places) (inserting : Bool) (holder : Collection) :
    policy.overwriteObjection t d value inserting holder =
      policy.overwriteObjection t e value inserting holder := by
  by_cases hrelated : t <+: holder.keys ∨ holder.keys <+: t
  · have hitems := holder.itemsIn_eq hfence heq hrelated
    by_cases hnone : (policy.protectedAmong (holder.itemsIn e)).isEmpty = true
    · -- There are no protected tabs to lose.
      unfold overwriteObjection droppedNames
      rw [hitems]
      simp [hnone]
    · by_cases habove : t.isPrefixOf holder.keys = true
      · -- The value that is written is looked at instead of the document.
        unfold overwriteObjection droppedNames
        rw [hitems]
        simp [habove]
      · have hbelow : holder.keys <+: t := hrelated.resolve_left fun h =>
          habove (List.isPrefixOf_iff_prefix.2 h)
        obtain ⟨r, rfl⟩ := hbelow
        cases r with
        | nil => simp at habove
        | cons k r =>
          have hne : holder.itemsIn d ≠ [] := by
            intro hempty
            rw [← hitems, hempty] at hnone
            exact hnone rfl
          have hitem : holder.keys ++ [k] <+: holder.keys ++ k :: r := ⟨r, by simp⟩
          obtain ⟨hat, hoverlong⟩ := holder.at?_item_eq hfence heq hitem hne
          have htake : (holder.keys ++ k :: r).take (holder.keys.length + 1) =
              holder.keys ++ [k] := by
            rw [List.take_length_add_append]
            rfl
          unfold overwriteObjection droppedNames
          dsimp only
          rw [htake, hitems, hat, hoverlong]
  · rw [not_or] at hrelated
    rw [overwriteObjection_of_unrelated hrelated.1 hrelated.2,
      overwriteObjection_of_unrelated hrelated.1 hrelated.2]

theorem overwriteGuardrail_eq
    (hfence : ∀ t, keys? path = some t → ∀ p ∈ places, d.Fenced t p ∧ ¬ t <+: p)
    (heq : redact d places = redact e places) (inserting : Bool) :
    policy.overwriteGuardrail path d value inserting =
      policy.overwriteGuardrail path e value inserting := by
  unfold overwriteGuardrail
  cases hkeys : keys? path with
  | none => rfl
  | some t =>
    have hholder : policy.overwriteObjection t d value inserting =
        policy.overwriteObjection t e value inserting := by
      funext holder
      exact overwriteObjection_eq (hfence t hkeys) heq inserting holder
    dsimp only [bind, Option.bind]
    rw [hholder]

/-! ## 3. One operation -/

variable {op : Operation}

theorem classify_eq_none (h : policy.classify path = none) :
    ∃ q, Pointer.parse path = .ok q ∧ ∀ p ∈ policy.blocked, ¬ p.keys <+: q.keys := by
  unfold classify at h
  cases hparse : Pointer.parse path with
  | error f => rw [hparse] at h; cases h
  | ok q =>
    refine ⟨q, rfl, fun p hp hpre => ?_⟩
    rw [hparse] at h
    dsimp only at h
    cases hfind : policy.blocked.find? q.startsWith with
    | some b => rw [hfind] at h; cases h
    | none =>
      have hnot := List.find?_eq_none.1 hfind p hp
      exact hnot (List.isPrefixOf_iff_prefix.2 hpre)

/-- Of an operation whose paths are allowed every name is a pointer, and none is blocked. -/
theorem names_of_pathObjections (h : policy.pathObjections op = []) :
    (∀ text ∈ op.names, policy.classify text = none) ∧
      (op.verb = .move ∨ op.verb = .copy → ∃ text, op.source = some text) := by
  unfold pathObjections at h
  unfold Operation.names
  cases hverb : op.verb <;> cases hsource : op.source <;> simp_all

theorem not_prefix_of_pathObjections (h : policy.pathObjections op = []) {q : Pointer}
    (hq : op.Names q) {p : Pointer} (hp : p ∈ policy.blocked) : ¬ p.keys <+: q.keys := by
  obtain ⟨text, htext, hparse⟩ := hq
  obtain ⟨q', hparse', hblocked⟩ := classify_eq_none ((names_of_pathObjections h).1 text htext)
  obtain rfl : q = q' := Except.ok.inj (hparse.symm.trans hparse')
  exact hblocked p hp

theorem pathObjections_of_checkOperation {position : Option Nat}
    (h : policy.checkOperation op d position = []) : policy.pathObjections op = [] := by
  unfold checkOperation at h
  rw [List.map_eq_nil_iff] at h
  cases hpaths : policy.pathObjections op with
  | nil => rfl
  | cons o os => rw [hpaths] at h; cases h

theorem guardrailObjections_eq (hclear : op.Clear places d)
    (heq : redact d places = redact e places)
    (hgiven : op.verb = .move ∨ op.verb = .copy → ∃ text, op.source = some text) :
    policy.guardrailObjections op d = policy.guardrailObjections op e := by
  have hfence : ∀ text ∈ op.names, ∀ t, keys? text = some t →
      ∀ p ∈ places, d.Fenced t p ∧ ¬ t <+: p := by
    intro text htext t ht
    obtain ⟨q, hq, rfl⟩ := keys?_eq_some ht
    exact hclear.fenced ⟨text, htext, hq⟩
  -- A move and a copy look at the value that they take along.
  have hread : ∀ text ∈ op.names, (keys? text).bind d.at? = (keys? text).bind e.at? ∧
      (keys? text).bind d.overlongAt? = (keys? text).bind e.overlongAt? := by
    intro text htext
    cases hkeys : keys? text with
    | none => exact ⟨rfl, rfl⟩
    | some t => exact Value.at?_eq_of_fenced (hfence text htext t hkeys) heq
  have hpath := hfence op.path List.mem_cons_self
  unfold guardrailObjections
  cases hverb : op.verb with
  | add =>
    dsimp only
    rw [addGuardrail_eq hpath heq, overwriteGuardrail_eq hpath heq]
  | remove =>
    dsimp only
    rw [removeGuardrail_eq hpath heq]
  | replace =>
    dsimp only
    rw [addGuardrail_eq hpath heq, overwriteGuardrail_eq hpath heq]
  | test => rfl
  | move =>
    obtain ⟨source, hsource⟩ := hgiven (.inl hverb)
    have hnamed := Operation.mem_names (.inl hverb) hsource
    obtain ⟨hfound, hunread⟩ := hread source hnamed
    rw [hsource]
    dsimp only [Option.getD]
    rw [hfound, hunread, addGuardrail_eq hpath heq, removeGuardrail_eq (hfence source hnamed) heq]
  | copy =>
    obtain ⟨source, hsource⟩ := hgiven (.inr hverb)
    obtain ⟨hfound, hunread⟩ := hread source (Operation.mem_names (.inr hverb) hsource)
    rw [hsource]
    dsimp only [Option.getD]
    rw [hfound, hunread, addGuardrail_eq hpath heq]

/-- The policy has the same against an operation on two documents that differ only at places that
the operation stays clear of. -/
theorem checkOperation_eq (hclear : op.Clear places d) (heq : redact d places = redact e places)
    (position : Option Nat) :
    policy.checkOperation op d position = policy.checkOperation op e position := by
  unfold checkOperation
  cases hpaths : policy.pathObjections op with
  | cons o os => rfl
  | nil =>
    dsimp only
    rw [guardrailObjections_eq hclear heq (names_of_pathObjections hpaths).2]

end Policy

end Dashboards
