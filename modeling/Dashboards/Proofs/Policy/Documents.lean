import Dashboards.Policy.Check
import Dashboards.Proofs.Json.Equality

/-!
# Comparing documents before and after a patch

The last check of a patch finds nothing exactly when every blocked section is as it was, no
collection has grown beyond its ceiling, and no protected tab has gone.  What it keeps adds up over
any number of patches, and the number of a version takes no part in it.
-/

namespace Dashboards

/-! ## 1. Places in a document -/

namespace Value

/-- Whether two documents have loosely equal values at a place, or no value at all. -/
def sameAt (p : Pointer) (a b : Value) : Bool :=
  match a.resolve? p, b.resolve? p with
  | some v, some w => v.looseEqual w
  | none, none => true
  | _, _ => false

theorem sameAt_trans {p : Pointer} {a b c : Value} (hab : sameAt p a b = true)
    (hbc : sameAt p b c = true) : sameAt p a c = true := by
  unfold sameAt at *
  -- A place that has a value in one document only is a difference, so few cases are left.
  cases ha : a.resolve? p <;> cases hb : b.resolve? p <;> cases hc : c.resolve? p <;>
    simp only [ha, hb, hc] at hab hbc ⊢ <;> first | exact looseEqual_trans hab hbc | simp_all

theorem sameAt_refl {p : Pointer} {a : Value}
    (h : ∀ v, a.resolve? p = some v → v.looseEqual v = true) : sameAt p a a = true := by
  unfold sameAt
  cases ha : a.resolve? p with
  | none => rfl
  | some v => exact h v ha

/-- A part of an orderly tree is orderly. -/
theorem Orderly.at? {fine : Number → Prop} {v w : Value} {keys : List String} (h : v.Orderly fine)
    (hw : v.at? keys = some w) : w.Orderly fine := by
  induction keys generalizing v with
  | nil =>
    obtain rfl : v = w := by simpa [Value.at?] using hw
    exact h
  | cons k ks ih =>
    cases v with
    | obj ms =>
      obtain ⟨c, hc, hw⟩ := Option.bind_eq_some_iff.1 hw
      exact ih ((orderly_obj_iff.1 h).2 _ (Members.mem_of_get? hc)) hw
    | arr xs =>
      obtain ⟨c, hc, hw⟩ := Option.bind_eq_some_iff.1 hw
      obtain ⟨i, -, hi⟩ := Option.bind_eq_some_iff.1 hc
      exact ih (orderly_arr_iff.1 h c (List.mem_of_getElem? hi)) hw
    | _ => cases hw

end Value

/-! ## 2. The comparison -/

theorem Collection.mem_all (c : Collection) : c ∈ Collection.all := by
  cases c <;> decide

namespace Policy

variable {policy : Policy} {a b c : Value}

theorem sectionObjection_eq_none_iff {p : Pointer} :
    sectionObjection a b p = none ↔
      a.overlongAt? p.keys = none ∧ b.overlongAt? p.keys = none ∧ Value.sameAt p a b = true := by
  unfold sectionObjection Value.sameAt
  cases a.overlongAt? p.keys <;> cases b.overlongAt? p.keys <;>
    simp only [Option.orElse_none, Option.orElse_some, reduceCtorEq, false_and, and_false, true_and]
  cases a.resolve? p <;> cases b.resolve? p <;> simp

theorem mem_protectedAmong {tabs : List Value} {name : String} :
    name ∈ policy.protectedAmong tabs ↔
      name ∈ tabs.filterMap tabName? ∧ name ∈ policy.protectedTabs := by
  unfold protectedAmong
  rw [mem_sortedTexts, List.mem_filter, List.contains_iff_mem]

/-- The comparison finds nothing exactly when sections, lengths and protected tabs are kept. -/
theorem checkDocuments_eq_nil_iff :
    policy.checkDocuments a b = [] ↔
      (∀ p ∈ policy.blocked, sectionObjection a b p = none) ∧
      (∀ c : Collection, policy.limit c < c.lengthIn b → c.lengthIn b ≤ c.lengthIn a) ∧
      (∀ name ∈ tabNames a, name ∈ policy.protectedTabs → name ∈ tabNames b) := by
  unfold checkDocuments
  rw [List.append_eq_nil_iff, List.append_eq_nil_iff, and_assoc]
  refine and_congr ?_ (and_congr ?_ ?_)
  · simp [List.filterMap_eq_nil_iff]
  · rw [List.filterMap_eq_nil_iff]
    constructor
    · intro h c hlimit
      have hc := h c c.mem_all
      by_contra hgrown
      rw [if_pos ⟨hlimit, by omega⟩] at hc
      cases hc
    · intro h c _
      rw [if_neg]
      rintro ⟨hlimit, hgrown⟩
      have := h c hlimit
      omega
  · rw [List.map_eq_nil_iff, List.eq_nil_iff_forall_not_mem]
    constructor
    · intro h name hname hprotected
      by_contra hlost
      refine h name (mem_sortedTexts.2 (List.mem_filter.2 ⟨hname, ?_⟩))
      simp [hprotected, hlost]
    · intro h name hmem
      obtain ⟨hname, hlost⟩ := List.mem_filter.1 (mem_sortedTexts.1 hmem)
      simp only [Bool.and_eq_true, Bool.not_eq_true', List.contains_eq_mem,
        decide_eq_false_iff_not, decide_eq_true_eq] at hlost
      exact hlost.2 (h name hname hlost.1)

/-! ## 3. What patches keep -/

/-- What the policy keeps from one document to another, however many patches lie between them. -/
structure Keeps (policy : Policy) (a b : Value) : Prop where
  /-- No collection is longer than its ceiling and than it was. -/
  lengths : ∀ c : Collection, (c.lengthIn b : Int) ≤ max (policy.limit c) (c.lengthIn a)
  /-- No protected tab has gone. -/
  tabs : ∀ name ∈ tabNames a, name ∈ policy.protectedTabs → name ∈ tabNames b
  /-- Every blocked section is as it was, and so are the indices on the way to it that nobody can
  read; the number of the version is left out. -/
  sections : ∀ p ∈ policy.blocked, p.isRoot = false → p.startsWith ⟨["version"]⟩ = false →
    a.overlongAt? p.keys = b.overlongAt? p.keys ∧ Value.sameAt p a b = true

namespace Keeps

theorem of_checkDocuments (h : policy.checkDocuments a b = []) : policy.Keeps a b := by
  obtain ⟨hsections, hlengths, htabs⟩ := checkDocuments_eq_nil_iff.1 h
  refine ⟨fun c => ?_, htabs, fun p hp _ _ => ?_⟩
  -- Beyond its ceiling a collection may only shrink, and up to it the ceiling is the bound.
  · have hc := hlengths c
    omega
  · obtain ⟨ha, hb, hsame⟩ := sectionObjection_eq_none_iff.1 (hsections p hp)
    exact ⟨ha.trans hb.symm, hsame⟩

theorem trans (hab : policy.Keeps a b) (hbc : policy.Keeps b c) : policy.Keeps a c := by
  refine ⟨fun c => ?_, fun name hname hprotected => ?_, fun p hp hroot hversion => ?_⟩
  · have h := hab.lengths c
    have h' := hbc.lengths c
    omega
  · exact hbc.tabs name (hab.tabs name hname hprotected) hprotected
  · obtain ⟨hindex, hsame⟩ := hab.sections p hp hroot hversion
    obtain ⟨hindex', hsame'⟩ := hbc.sections p hp hroot hversion
    exact ⟨hindex.trans hindex', Value.sameAt_trans hsame hsame'⟩

theorem refl (h : a.Orderly fun n => n.same n = true ∨ n.isCopy n = true) : policy.Keeps a a := by
  refine ⟨fun c => ?_, fun name hname _ => hname, fun p _ _ _ => ?_⟩
  · omega
  · exact ⟨rfl, Value.sameAt_refl fun v hv => Value.looseEqual_refl (h.at? hv)⟩

end Keeps

end Policy

end Dashboards
