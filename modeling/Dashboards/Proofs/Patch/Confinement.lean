import Dashboards.Proofs.Patch.Chain
import Dashboards.Proofs.Policy.Documents
import Dashboards.Proofs.Policy.Redaction

/-!
# Blocked sections and what patches can read

A patch cannot tell two documents apart that differ only in their blocked sections, as long as its
operations do not name anything above such a section or in an array on the way to it, and both
documents hold the same protected tabs.  The patch is run on both documents side by side.  The runs
stay identical outside the sections, and what lies behind a seal on the way to a section stays as it
was.  Without these conditions a patch can read a section, and examples show how.
-/

namespace Dashboards

open Value (redact)

/-! ## 1. Documents that differ in blocked sections -/

namespace Policy

/-- The blocked sections that are present in a document. -/
def presentIn (policy : Policy) (d : Value) : List (List String) :=
  (policy.blocked.map (·.keys)).filter fun keys => (d.at? keys).isSome

/-- The same blocked sections are present in two documents, and the documents are identical
everywhere outside the values of these sections. -/
structure Indistinct (policy : Policy) (a b : Value) : Prop where
  /-- To resolve a blocked section comes to the same in both: to a value, to nothing, or to an index
  with too many digits. -/
  present : ∀ p ∈ policy.blocked, a.overlongAt? p.keys = b.overlongAt? p.keys ∧
    (a.resolve? p).isSome = (b.resolve? p).isSome
  outside : redact a (policy.presentIn a) = redact b (policy.presentIn a)

variable {policy : Policy} {a b : Value} {t : List String}

theorem mem_presentIn :
    t ∈ policy.presentIn a ↔ (∃ p ∈ policy.blocked, p.keys = t) ∧ (a.at? t).isSome = true := by
  unfold presentIn
  rw [List.mem_filter, List.mem_map]

theorem presentIn_congr (h : ∀ p ∈ policy.blocked, (a.resolve? p).isSome = (b.resolve? p).isSome) :
    policy.presentIn a = policy.presentIn b := by
  refine List.filter_congr fun keys hkeys => ?_
  obtain ⟨p, hp, rfl⟩ := List.mem_map.1 hkeys
  exact h p hp

theorem Indistinct.presentIn_eq (h : policy.Indistinct a b) :
    policy.presentIn a = policy.presentIn b :=
  presentIn_congr fun p hp => (h.present p hp).2

theorem Indistinct.symm (h : policy.Indistinct a b) : policy.Indistinct b a := by
  refine ⟨fun p hp => ⟨(h.present p hp).1.symm, (h.present p hp).2.symm⟩, ?_⟩
  rw [← h.presentIn_eq]
  exact h.outside.symm

end Policy

namespace Policy

variable {policy : Policy} {doc : Value} {name : String}

/-- The protected tabs that a collection names; none when there is no list at its place. -/
def protectedIn? (policy : Policy) (c : Collection) (doc : Value) : Option (List String) :=
  ((doc.at? c.keys).bind Value.items?).map policy.protectedAmong

/-- The protected tabs of a document are those of the first holder at whose place a list is. -/
theorem mem_protectedIn? :
    name ∈ ((policy.protectedIn? .uiTabs doc).orElse fun _ => policy.protectedIn? .tabs doc).getD []
      ↔ name ∈ tabNames doc ∧ name ∈ policy.protectedTabs := by
  unfold tabNames protectedIn?
  rcases doc.at? Collection.uiTabs.keys with _ | (_ | _ | _ | _ | xs | ms)
  case some.arr => exact mem_protectedAmong
  all_goals
    rcases doc.at? Collection.tabs.keys with _ | (_ | _ | _ | _ | xs | ms)
    case some.arr => exact mem_protectedAmong
    all_goals simp [Value.items?]

end Policy

/-- No name of the operation is a place above the section, or a place in an array on the way to it. -/
def Operation.Passes (op : Operation) (d : Value) (p : Pointer) : Prop :=
  ∀ q, op.Names q → ∀ t, t <+: p.keys → t ≠ p.keys →
    q.keys ≠ t ∧ ∀ xs, d.at? t = some (.arr xs) → ¬ t <+: q.keys

/-! ## 2. Two runs side by side -/

namespace Patch

/-- The documents `d` and `e` that two runs from `a` and `b` have come to: they differ only at the
places, and what lies behind the seals on the way to the places is as it was. -/
structure Twins (places : List (List String)) (seals : List String → Prop) (a b d e : Value) :
    Prop where
  covers : ∀ p ∈ places, ∃ s, seals s ∧ s <+: p
  leads : ∀ s, seals s → ∃ p ∈ places, s <+: p
  left : ∀ s, seals s → ∃ x, a.memberAt? s = some x ∧ d.memberAt? s = some x
  right : ∀ s, seals s → ∃ x, b.memberAt? s = some x ∧ e.memberAt? s = some x
  outset : redact a places = redact b places
  alike : redact d places = redact e places

/-- No name of the operation goes through a seal or stops short on the way to a place. -/
def Avoids (places : List (List String)) (seals : List String → Prop) (op : Operation) : Prop :=
  ∀ q, op.Names q → (∀ s, seals s → ¬ s <+: q.keys) ∧ ∀ p ∈ places, ¬ q.keys <+: p

namespace Twins

variable {policy : Policy} {places : List (List String)} {seals : List String → Prop}
  {a b d e d' : Value} {op : Operation} {ops : List Operation} {s t : List String}

theorem symm (h : Twins places seals a b d e) : Twins places seals b a e d :=
  ⟨h.covers, h.leads, h.right, h.left, h.outset.symm, h.alike.symm⟩

theorem start (h : Twins places seals a b d e) : Twins places seals a b a b := by
  refine ⟨h.covers, h.leads, fun s hs => ?_, fun s hs => ?_, h.outset, h.outset⟩
  · obtain ⟨x, hx, -⟩ := h.left s hs
    exact ⟨x, hx, hx⟩
  · obtain ⟨x, hx, -⟩ := h.right s hs
    exact ⟨x, hx, hx⟩

theorem clear (h : Twins places seals a b d e) (havoid : Avoids places seals op) :
    op.Clear places d := by
  intro p hp
  obtain ⟨s, hs, hsp⟩ := h.covers p hp
  obtain ⟨x, -, hx⟩ := h.left s hs
  refine ⟨s, hsp, ?_, fun q hq => ⟨(havoid q hq).1 s hs, (havoid q hq).2 p hp⟩⟩
  rw [hx]
  rfl

theorem turns_away (h : Twins places seals a b d e) (havoid : Avoids places seals op)
    (hs : seals s) : ∀ q, op.Names q → ¬ s <+: q.keys ∧ ¬ q.keys <+: s := by
  intro q hq
  obtain ⟨p, hp, hsp⟩ := h.leads s hs
  exact ⟨(havoid q hq).1 s hs, fun hpre => (havoid q hq).2 p hp (hpre.trans hsp)⟩

/-- An operation that can be carried out on one side can be carried out on the other. -/
theorem step (h : Twins places seals a b d e) (havoid : Avoids places seals op)
    (happly : op.apply d = .ok d') :
    ∃ e', op.apply e = .ok e' ∧ Twins places seals a b d' e' := by
  -- Both attempts end alike, and no attempt reaches behind a seal.
  obtain ⟨hfault, hredact⟩ := Operation.attempt_alike (h.clear havoid) h.alike
  have hattempt := Operation.apply_eq_ok_iff.1 happly
  have hdocument : (op.attempt d).document = d' := by
    rw [hattempt]
    rfl
  rw [hattempt] at hfault hredact
  refine ⟨(op.attempt e).document, ?_, h.covers, h.leads, fun s hs => ?_, fun s hs => ?_, h.outset,
    hredact⟩
  · rw [Operation.apply_eq_ok_iff, Attempt.done, Attempt.mk.injEq]
    exact ⟨rfl, hfault.symm⟩
  · obtain ⟨x, ha, hd⟩ := h.left s hs
    refine ⟨x, ha, ?_⟩
    rw [← hdocument]
    exact Operation.memberAt?_attempt hd (h.turns_away havoid hs)
  · obtain ⟨x, hb, he⟩ := h.right s hs
    exact ⟨x, hb, Operation.memberAt?_attempt he (h.turns_away havoid hs)⟩

/-- A chain on one side has a chain on the other beside it. -/
theorem chain (h : Twins places seals a b d e)
    (havoid : ∀ op ∈ ops, policy.pathObjections op = [] → Avoids places seals op)
    (hchain : Chain policy d ops d') :
    ∃ e', Chain policy e ops e' ∧ Twins places seals a b d' e' := by
  induction hchain generalizing e with
  | nil d => exact ⟨e, .nil e, h⟩
  | @cons d d₁ d' op ops checked applied rest ih =>
    have hop := havoid op List.mem_cons_self (Policy.pathObjections_of_checkOperation checked)
    obtain ⟨e₁, happly, htwins⟩ := h.step hop applied
    -- The second run is checked on its own document, where the policy sees nothing else.
    rw [Policy.checkOperation_eq (h.clear hop) h.alike] at checked
    obtain ⟨e', hchain, hend⟩ :=
      ih htwins fun op hmem => havoid op (List.mem_cons_of_mem _ hmem)
    exact ⟨e', .cons checked happly hchain, hend⟩

/-! ## 3. The comparison on both sides -/

/-- What lies behind a seal is as it was. -/
theorem at?_of_sealed (h : Twins places seals a b d e) (hs : seals s) (hst : s <+: t) :
    d.at? t = a.at? t ∧ d.overlongAt? t = a.overlongAt? t := by
  obtain ⟨r, rfl⟩ := hst
  obtain ⟨x, ha, hd⟩ := h.left s hs
  obtain ⟨hat, hoverlong⟩ := Value.at?_append ha r
  obtain ⟨hat', hoverlong'⟩ := Value.at?_append hd r
  exact ⟨hat'.trans hat.symm, hoverlong'.trans hoverlong.symm⟩

theorem fenced (h : Twins places seals a b d e) (hopen : ¬ ∃ s, seals s ∧ s <+: t) :
    ∀ p ∈ places, d.Fenced t p := by
  intro p hp
  obtain ⟨s, hs, hsp⟩ := h.covers p hp
  obtain ⟨x, -, hx⟩ := h.left s hs
  exact ⟨s, hsp, by rw [hx]; rfl, fun hst => hopen ⟨s, hs, hst⟩⟩

/-- What lies in front of the seals is the same on both sides. -/
theorem at?_of_open (h : Twins places seals a b d e) (hopen : ¬ ∃ s, seals s ∧ s <+: t)
    (habsent : a.at? t = none) :
    d.at? t = e.at? t ∧ d.overlongAt? t = e.overlongAt? t := by
  refine Value.at?_eq_of_fenced (fun p hp => ⟨h.fenced hopen p hp, fun htp => ?_⟩) h.alike
  obtain ⟨s, hs, hsp⟩ := h.covers p hp
  rcases List.prefix_or_prefix_of_prefix hsp htp with hst | hts
  · exact hopen ⟨s, hs, hst⟩
  · obtain ⟨x, hx, -⟩ := h.left s hs
    have hthere := Value.at?_isSome_of_memberAt? hx hts
    rw [habsent] at hthere
    cases hthere

theorem protectedIn?_eq (h : Twins places seals a b d e) {c : Collection}
    (htabs : policy.protectedIn? c a = policy.protectedIn? c b) :
    policy.protectedIn? c d = policy.protectedIn? c e := by
  by_cases hseal : ∃ s, seals s ∧ s <+: c.keys
  · obtain ⟨s, hs, hst⟩ := hseal
    have hleft : policy.protectedIn? c d = policy.protectedIn? c a := by
      unfold Policy.protectedIn?
      rw [(h.at?_of_sealed hs hst).1]
    have hright : policy.protectedIn? c e = policy.protectedIn? c b := by
      unfold Policy.protectedIn?
      rw [(h.symm.at?_of_sealed hs hst).1]
    rw [hleft, hright, htabs]
  · unfold Policy.protectedIn?
    rw [Value.items_at?_eq (h.fenced hseal) h.alike]

/-- A collection is as long as it was on both sides, or as long on one side as on the other. -/
theorem lengthIn (h : Twins places seals a b d e) (c : Collection) :
    (c.lengthIn d = c.lengthIn a ∧ c.lengthIn e = c.lengthIn b) ∨
      (c.lengthIn d = c.lengthIn e ∧ c.lengthIn a = c.lengthIn b) := by
  unfold Collection.lengthIn
  by_cases hseal : ∃ s, seals s ∧ s <+: c.keys
  · obtain ⟨s, hs, hst⟩ := hseal
    left
    rw [c.itemsIn_eq_getD, c.itemsIn_eq_getD, c.itemsIn_eq_getD, c.itemsIn_eq_getD,
      (h.at?_of_sealed hs hst).1, (h.symm.at?_of_sealed hs hst).1]
    exact ⟨rfl, rfl⟩
  · right
    rw [c.itemsIn_eq_of_fenced (h.fenced hseal) h.alike,
      c.itemsIn_eq_of_fenced (h.start.fenced hseal) h.outset]
    exact ⟨rfl, rfl⟩

/-- A section that was kept on one side is kept on the other. -/
theorem sectionObjection_eq_none (h : Twins places seals a b d e)
    (hplaces : ∀ p ∈ policy.presentIn a, p ∈ places) (hab : policy.Indistinct a b)
    (hb : b.Orderly fun n => n.same n = true ∨ n.isCopy n = true) {p : Pointer}
    (hp : p ∈ policy.blocked) (hleft : Policy.sectionObjection a d p = none) :
    Policy.sectionObjection b e p = none := by
  rw [Policy.sectionObjection_eq_none_iff] at hleft ⊢
  obtain ⟨ha, hd, hsame⟩ := hleft
  obtain ⟨hindex, hthere⟩ := hab.present p hp
  refine ⟨hindex.symm.trans ha, ?_⟩
  by_cases hseal : ∃ s, seals s ∧ s <+: p.keys
  · -- The section lies behind a seal, so it is compared with itself.
    obtain ⟨s, hs, hst⟩ := hseal
    obtain ⟨hat, hoverlong⟩ := h.symm.at?_of_sealed hs hst
    refine ⟨by rw [hoverlong, ← hindex, ha], ?_⟩
    have hrefl : Value.sameAt p b b = true :=
      Value.sameAt_refl fun v hv => Value.looseEqual_refl (hb.at? hv)
    unfold Value.sameAt Value.resolve? at hrefl ⊢
    rw [hat]
    exact hrefl
  · -- No seal lies on the way to the section, so it is absent on both sides from the start.
    have habsent : a.at? p.keys = none := by
      cases hat : a.at? p.keys with
      | none => rfl
      | some v =>
        have hmem : p.keys ∈ policy.presentIn a :=
          Policy.mem_presentIn.2 ⟨⟨p, hp, rfl⟩, by rw [hat]; rfl⟩
        exact absurd (h.covers _ (hplaces _ hmem)) hseal
    obtain ⟨hat, hoverlong⟩ := h.at?_of_open hseal habsent
    refine ⟨hoverlong.symm.trans hd, ?_⟩
    unfold Value.sameAt Value.resolve? at hsame ⊢
    unfold Value.resolve? at hthere
    rw [habsent] at hsame hthere
    rw [hat] at hsame
    cases hb' : b.at? p.keys with
    | some v => rw [hb'] at hthere; cases hthere
    | none =>
      cases he : e.at? p.keys with
      | some v => rw [he] at hsame; cases hsame
      | none => rfl

/-- If the comparison finds nothing on one side, it finds nothing on the other. -/
theorem checkDocuments (h : Twins places seals a b d e)
    (hplaces : ∀ p ∈ policy.presentIn a, p ∈ places) (hab : policy.Indistinct a b)
    (htabs : ∀ c ∈ Collection.tabHolders, policy.protectedIn? c a = policy.protectedIn? c b)
    (hb : b.Orderly fun n => n.same n = true ∨ n.isCopy n = true)
    (hleft : policy.checkDocuments a d = []) : policy.checkDocuments b e = [] := by
  rw [Policy.checkDocuments_eq_nil_iff] at hleft ⊢
  obtain ⟨hsections, hlengths, hlost⟩ := hleft
  refine ⟨fun p hp => h.sectionObjection_eq_none hplaces hab hb hp (hsections p hp),
    fun c hc => ?_, fun name hname hprotected => ?_⟩
  -- A collection behind a seal has not grown; another one is as long on either side.
  · obtain ⟨-, he⟩ | ⟨hde, hab'⟩ := h.lengthIn c
    · exact Nat.le_of_eq he
    · rw [← hde] at hc ⊢
      rw [← hab']
      exact hlengths c hc
  -- A protected tab of `b` is one of `a`; it is kept in `d`, and so it is one of `e`.
  · have hui := htabs .uiTabs (by decide)
    have hplain := htabs .tabs (by decide)
    have hmem := Policy.mem_protectedIn?.2 ⟨hname, hprotected⟩
    rw [← hui, ← hplain] at hmem
    have hkept := hlost name (Policy.mem_protectedIn?.1 hmem).1 hprotected
    have hmem' := Policy.mem_protectedIn?.2 ⟨hkept, hprotected⟩
    rw [h.protectedIn?_eq hui, h.protectedIn?_eq hplain] at hmem'
    exact (Policy.mem_protectedIn?.1 hmem').1

/-- The results of two accepted runs differ only in their blocked sections. -/
theorem indistinct (h : Twins (policy.presentIn a) seals a b d e) (hab : policy.Indistinct a b)
    (hleft : policy.checkDocuments a d = []) (hright : policy.checkDocuments b e = []) :
    policy.Indistinct d e := by
  have hkept : ∀ {x y : Value}, policy.checkDocuments x y = [] → ∀ p ∈ policy.blocked,
      y.overlongAt? p.keys = none ∧ (y.resolve? p).isSome = (x.resolve? p).isSome := by
    intro x y hcheck p hp
    obtain ⟨-, hy, hsame⟩ :=
      Policy.sectionObjection_eq_none_iff.1 ((Policy.checkDocuments_eq_nil_iff.1 hcheck).1 p hp)
    refine ⟨hy, ?_⟩
    unfold Value.sameAt at hsame
    cases hx' : x.resolve? p <;> cases hy' : y.resolve? p <;> simp_all
  have hpresent : policy.presentIn d = policy.presentIn a :=
    Policy.presentIn_congr fun p hp => (hkept hleft p hp).2
  refine ⟨fun p hp => ⟨?_, ?_⟩, ?_⟩
  · rw [(hkept hleft p hp).1, (hkept hright p hp).1]
  · rw [(hkept hleft p hp).2, (hkept hright p hp).2, (hab.present p hp).2]
  · rw [hpresent]
    exact h.alike

end Twins

/-! ## 4. What patches cannot read -/

variable {policy : Policy} {a b : Value} {ops : List Operation}

/-- Two documents that differ only in their blocked sections are twins, with the seals on the way to
the sections. -/
theorem twins_of_indistinct (hab : policy.Indistinct a b) :
    Twins (policy.presentIn a) (Value.Seal (policy.presentIn a) a b) a b a b := by
  refine ⟨fun p hp => ?_, fun s hs => hs.leads, fun s hs => ?_, fun s hs => ?_, hab.outside,
    hab.outside⟩
  · obtain ⟨s, hsp, hseal⟩ := Value.exists_seal hab.outside hp (Policy.mem_presentIn.1 hp).2
    exact ⟨s, hseal, hsp⟩
  · obtain ⟨x, hx⟩ := Option.isSome_iff_exists.1 hs.left
    exact ⟨x, hx, hx⟩
  · obtain ⟨x, hx⟩ := Option.isSome_iff_exists.1 hs.right
    exact ⟨x, hx, hx⟩

/-- An operation whose paths are allowed and that passes the blocked sections by avoids the seals on
the way to them. -/
theorem avoids_of_passes {op : Operation} (hpaths : policy.pathObjections op = [])
    (hpasses : ∀ p ∈ policy.blocked, (a.resolve? p).isSome = true → op.Passes a p) :
    Avoids (policy.presentIn a) (Value.Seal (policy.presentIn a) a b) op := by
  intro q hq
  have hblocked : ∀ t ∈ policy.presentIn a, ¬ t <+: q.keys := by
    intro t ht
    obtain ⟨⟨p, hp, rfl⟩, -⟩ := Policy.mem_presentIn.1 ht
    exact Policy.not_prefix_of_pathObjections hpaths hq hp
  constructor
  · intro s hseal
    obtain ⟨t, ht, hst⟩ := hseal.leads
    rcases hseal.closed with hmem | ⟨xs, hxs⟩
    · exact hblocked s hmem
    · by_cases heq : s = t
      · rw [heq]
        exact hblocked t ht
      · obtain ⟨⟨p, hp, rfl⟩, hthere⟩ := Policy.mem_presentIn.1 ht
        exact (hpasses p hp hthere q hq s hst heq).2 xs (Value.at?_of_memberAt? hxs)
  · intro t ht hqt
    by_cases heq : q.keys = t
    · subst heq
      exact hblocked _ ht hqt
    · obtain ⟨⟨p, hp, rfl⟩, hthere⟩ := Policy.mem_presentIn.1 ht
      exact (hpasses p hp hthere q hq q.keys hqt heq).1 rfl

/-- A patch is accepted on two documents or on neither, and where it is accepted, the results differ
only in their blocked sections. -/
structure Blind (policy : Policy) (a b : Value) (ops : List Operation) : Prop where
  accepted : (apply (some policy) a ops).applied = (apply (some policy) b ops).applied
  results : (apply (some policy) a ops).applied = true →
    policy.Indistinct (apply (some policy) a ops).document (apply (some policy) b ops).document

/-- A patch whose operations pass the blocked sections by cannot read them.  The values are such as
documents are made of: an object has each key once, and a number equals itself, or is a NaN, which
equals its copies. -/
theorem blind_of_passes (hab : policy.Indistinct a b)
    (htabs : ∀ c ∈ Collection.tabHolders, policy.protectedIn? c a = policy.protectedIn? c b)
    (hpasses : ∀ op ∈ ops, ∀ p ∈ policy.blocked, (a.resolve? p).isSome = true → op.Passes a p)
    (ha : a.Orderly fun n => n.same n = true ∨ n.isCopy n = true)
    (hb : b.Orderly fun n => n.same n = true ∨ n.isCopy n = true) : Blind policy a b ops := by
  have start := twins_of_indistinct hab
  have havoid : ∀ op ∈ ops, policy.pathObjections op = [] →
      Avoids (policy.presentIn a) (Value.Seal (policy.presentIn a) a b) op :=
    fun op hop hpaths => avoids_of_passes hpaths (hpasses op hop)
  have forward : (apply (some policy) a ops).applied = true →
      (apply (some policy) b ops).applied = true ∧
        policy.Indistinct (apply (some policy) a ops).document
          (apply (some policy) b ops).document := by
    intro happlied
    obtain ⟨hchain, hcheck⟩ := applyUnder_iff.1 ⟨happlied, rfl⟩
    obtain ⟨e, hchain', htwins⟩ := start.chain havoid hchain
    have hcheck' := htwins.checkDocuments (fun _ hp => hp) hab htabs hb hcheck
    obtain ⟨happlied', hdocument⟩ := applyUnder_iff.2 ⟨hchain', hcheck'⟩
    refine ⟨happlied', ?_⟩
    have hresults := htwins.indistinct hab hcheck hcheck'
    rw [← hdocument] at hresults
    exact hresults
  have backward : (apply (some policy) b ops).applied = true →
      (apply (some policy) a ops).applied = true := by
    -- The seals were found from the first document, but the runs are symmetric in them.
    intro happlied
    obtain ⟨hchain, hcheck⟩ := applyUnder_iff.1 ⟨happlied, rfl⟩
    obtain ⟨d, hchain', htwins⟩ := start.symm.chain havoid hchain
    have hplaces : ∀ p ∈ policy.presentIn b, p ∈ policy.presentIn a := by
      rw [hab.presentIn_eq]
      exact fun _ hp => hp
    have hcheck' := htwins.checkDocuments hplaces hab.symm (fun c hc => (htabs c hc).symm) ha hcheck
    exact (applyUnder_iff.2 ⟨hchain', hcheck'⟩).1
  exact ⟨Bool.eq_iff_iff.2 ⟨fun h => (forward h).1, backward⟩, fun h => (forward h).2⟩

/-- A section at the top of a document is passed by unless the root itself is named. -/
theorem passes_of_topLevel {op : Operation} {ms : Members Value} {k : String}
    (h : ∀ q, op.Names q → q.keys ≠ []) : op.Passes (.obj ms) ⟨[k]⟩ := by
  intro q hq t ht hne
  have hnil : t = [] := by
    rcases List.prefix_cons_iff.1 ht with rfl | ⟨r, rfl, hr⟩
    · rfl
    · rw [List.prefix_nil.1 hr] at hne
      exact absurd rfl hne
  subst hnil
  refine ⟨h q hq, fun xs hxs => ?_⟩
  cases hxs

/-- A dashboard of a tenant. -/
def tenantDocument (tenant : Int) : Value :=
  .obj [("title", .str "Sales"), ("tenant_id", .ofInt tenant), ("tabs", .ofStrings ["Details"])]

/-- Keeps the title under another name and writes a new one. -/
def retitling : List Operation :=
  [⟨.copy, "/metadata", .null, some "/title"⟩, ⟨.replace, "/title", .str "Leads", none⟩]

theorem orderly_tenantDocument (tenant : Int) :
    (tenantDocument tenant).Orderly fun n => n.same n = true ∨ n.isCopy n = true := by
  rw [tenantDocument, Value.orderly_obj_iff]
  refine ⟨by simp [Members.keys], fun m hm => ?_⟩
  simp only [List.mem_cons, List.not_mem_nil, or_false] at hm
  rcases hm with rfl | rfl | rfl
  · trivial
  · exact .inl (Number.same_refl (by simp [Number.isNaN, Number.exact]))
  · rw [Value.ofStrings, Value.orderly_arr_iff]
    intro x hx
    obtain ⟨s, -, rfl⟩ := List.mem_map.1 hx
    trivial

/-- The dashboards of two tenants are given a new title without a word on the tenants. -/
theorem blind_retitling :
    Policy.default.Indistinct (tenantDocument 1) (tenantDocument 2) ∧
      (∀ c ∈ Collection.tabHolders, Policy.default.protectedIn? c (tenantDocument 1) =
        Policy.default.protectedIn? c (tenantDocument 2)) ∧
      (∀ op ∈ retitling, ∀ p ∈ Policy.default.blocked,
        ((tenantDocument 1).resolve? p).isSome = true → op.Passes (tenantDocument 1) p) ∧
      (apply (some .default) (tenantDocument 1) retitling).applied = true ∧
      Blind .default (tenantDocument 1) (tenantDocument 2) retitling := by
  have indistinct : Policy.default.Indistinct (tenantDocument 1) (tenantDocument 2) :=
    ⟨by decide +kernel, rfl⟩
  have tabs : ∀ c ∈ Collection.tabHolders, Policy.default.protectedIn? c (tenantDocument 1) =
      Policy.default.protectedIn? c (tenantDocument 2) := by
    decide +kernel
  have passes : ∀ op ∈ retitling, ∀ p ∈ Policy.default.blocked,
      ((tenantDocument 1).resolve? p).isSome = true → op.Passes (tenantDocument 1) p := by
    have hblocked : ∀ p ∈ Policy.default.blocked, p.keys.length = 1 := by decide +kernel
    have hnames : ∀ op ∈ retitling, ∀ text ∈ op.names, Policy.keys? text ≠ some [] := by
      decide +kernel
    intro op hop p hp _
    obtain ⟨keys⟩ := p
    obtain ⟨k, rfl⟩ := List.length_eq_one_iff.1 (hblocked _ hp)
    refine passes_of_topLevel fun q hq hroot => ?_
    obtain ⟨text, htext, hparse⟩ := hq
    refine hnames op hop text htext ?_
    rw [Policy.keys?, hparse, ← hroot]
    rfl
  exact ⟨indistinct, tabs, passes, rfl, blind_of_passes indistinct tabs passes
    (orderly_tenantDocument 1) (orderly_tenantDocument 2)⟩

/-! ## 5. What patches can read -/

/-- A list under a policy that blocks the second item of lists in the metadata. -/
def listedDocument (secret : Int) : Value :=
  .obj [("metadata", .arr [.ofInt 0, .ofInt secret])]

/-- Tabs at both places, or at one of them only. -/
def tabbedDocument (ui : Value) : Value :=
  .obj [("tabs", .ofStrings ["Details"]), ("ui", ui), ("filters", .arr [])]

/-- A patch can read blocked sections.  It copies the root, and a section with it; it makes an item
move up to a place that is not blocked, tests its value there and restores the list; it puts a list
without the protected tab in the place of the tabs, which is let through only where the blocked
section has tabs of its own. -/
theorem not_blind :
    (Policy.default.Indistinct (tenantDocument 1) (tenantDocument 2) ∧
      ¬ Blind .default (tenantDocument 1) (tenantDocument 2)
        [⟨.copy, "/metadata", .null, some ""⟩]) ∧
    ({ Policy.default with blockedPaths := ["/metadata/1"] }.Indistinct (listedDocument 1)
        (listedDocument 2) ∧
      ¬ Blind { Policy.default with blockedPaths := ["/metadata/1"] } (listedDocument 1)
        (listedDocument 2) [⟨.remove, "/metadata/0", .null, none⟩,
          ⟨.test, "/metadata/0", .ofInt 1, none⟩, ⟨.add, "/metadata/0", .ofInt 0, none⟩]) ∧
    ({ Policy.default with blockedPaths := ["/ui"] }.Indistinct
        (tabbedDocument (.obj [("tabs", .ofStrings ["Details"])])) (tabbedDocument (.obj [])) ∧
      ¬ Blind { Policy.default with blockedPaths := ["/ui"] }
        (tabbedDocument (.obj [("tabs", .ofStrings ["Details"])])) (tabbedDocument (.obj []))
        [⟨.move, "/tabs", .null, some "/filters"⟩]) := by
  refine ⟨⟨⟨by decide +kernel, rfl⟩, fun h => ?_⟩, ⟨⟨by decide +kernel, rfl⟩, fun h => ?_⟩,
    ⟨by decide +kernel, rfl⟩, fun h => ?_⟩
  · have outside := (h.results rfl).outside
    have copied := congrArg (fun v => (v.at? ["metadata", "tenant_id"]).bind Value.numeric?) outside
    exact absurd copied (by decide +kernel)
  · exact absurd h.accepted (by decide +kernel)
  · exact absurd h.accepted (by decide +kernel)

end Patch

end Dashboards
