import Dashboards.Proofs.Patch.Chain
import Dashboards.Proofs.Policy.Documents
import Dashboards.Proofs.Policy.Items

/-!
# What the guardrails let through

A guardrail that finds nothing rules something out: a removal lets no protected tab go, a write drops
none, and neither removes or makes a tab where that is disabled.  An operation that the policy lets
through is one of a few steps, each with what the guardrails asked for it have ruled out.
-/

namespace Dashboards

open Patch

theorem Collection.ofKeys?_keys (c : Collection) : Collection.ofKeys? c.keys = some c := by
  cases c <;> decide +kernel

theorem Collection.keys_ne_nil (c : Collection) : c.keys ≠ [] := by
  cases c <;> exact List.cons_ne_nil _ _

theorem Collection.namesFrom_eq (c : Collection) (t : List String) (v : Value) :
    (c.itemsFrom t v).filterMap tabName? =
      match v.at? (c.keys.drop t.length) with
      | some (.arr xs) => xs.filterMap tabName?
      | _ => [] := by
  unfold itemsFrom
  cases v.at? (c.keys.drop t.length) with
  | none => rfl
  | some w => cases w <;> rfl

namespace Policy

variable {policy : Policy} {path : String} {d e v x : Value} {c : Collection} {k n : String}
  {s t : List String} {inserting : Bool}

/-! ## 1. Single guardrails -/

/-- Where no tabs may be made, nothing is added at a place in a collection of tabs. -/
theorem not_item_of_addGuardrail (h : policy.addGuardrail path d v = none) (hpath : keys? path = some t)
    (hcreate : policy.allowCreateNewTabs = false) (hc : c ∈ Collection.tabHolders) (k : String) :
    t ≠ c.keys ++ [k] := by
  rintro rfl
  unfold addGuardrail at h
  rw [hpath] at h
  dsimp only [bind, Option.bind] at h
  have hholds : c.holdsTabs = true := by
    unfold Collection.holdsTabs
    rw [List.contains_iff_mem]
    exact hc
  have hempty : ¬ (c.keys ++ [k]).isEmpty = true := fun hnil =>
    List.append_ne_nil_of_right_ne_nil _ (List.cons_ne_nil k []) (List.isEmpty_iff.1 hnil)
  rw [if_neg hempty, List.dropLast_concat, c.ofKeys?_keys] at h
  dsimp only at h
  rw [hholds, hcreate] at h
  cases h

theorem removalObjection_eq_none (h : policy.removeGuardrail path d = none)
    (hpath : keys? path = some t) (hc : c ∈ Collection.tabHolders) :
    policy.removalObjection path t d c = none := by
  unfold removeGuardrail at h
  rw [hpath] at h
  exact List.findSome?_eq_none_iff.1 h c hc

/-- A removal does not take a collection with a protected tab, nor one with any tab where no tabs may
go. -/
theorem not_above_of_removeGuardrail (h : policy.removeGuardrail path d = none)
    (hpath : keys? path = some t) (hc : c ∈ Collection.tabHolders) (hn : n ∈ c.namesIn d)
    (hkept : n ∈ policy.protectedTabs ∨ policy.allowRemoveTabs = false) : ¬ t <+: c.keys := by
  intro habove
  have hnone := removalObjection_eq_none h hpath hc
  unfold removalObjection at hnone
  -- What lies above the collection has a shorter path than its items, so it is none of them.
  have hparent : t.dropLast ≠ c.keys := by
    intro hparent
    have hlength := habove.length_le
    have hpositive := List.length_pos_iff.2 c.keys_ne_nil
    rw [← hparent, List.length_dropLast] at hlength hpositive
    omega
  rw [if_neg hparent, if_pos (List.isPrefixOf_iff_prefix.2 habove)] at hnone
  dsimp only at hnone
  have hitems : c.itemsIn d ≠ [] := by
    intro hnil
    rw [Collection.namesIn, hnil] at hn
    cases hn
  cases hprotected : policy.protectedAmong (c.itemsIn d) with
  | cons name names => rw [hprotected] at hnone; cases hnone
  | nil =>
    rw [hprotected] at hnone
    rcases hkept with hmem | hremove
    · have hmem' := mem_protectedAmong.2 ⟨hn, hmem⟩
      rw [hprotected] at hmem'
      cases hmem'
    · simp [hremove, hitems] at hnone

/-- A removal takes no item of a name that is protected, and none at all where no tabs may go. -/
theorem not_named_of_removeGuardrail (h : policy.removeGuardrail path d = none)
    (hpath : keys? path = some t) (hc : c ∈ Collection.tabHolders)
    (hkept : n ∈ policy.protectedTabs ∨ policy.allowRemoveTabs = false) (k : String)
    (hk : t = c.keys ++ [k]) : (d.at? t).bind tabName? ≠ some n := by
  subst hk
  intro hname
  have hnone := removalObjection_eq_none h hpath hc
  unfold removalObjection at hnone
  rw [if_pos List.dropLast_concat] at hnone
  obtain ⟨x, hx, hxn⟩ := Option.bind_eq_some_iff.1 hname
  rw [hx] at hnone
  cases hlong : d.overlongAt? (c.keys ++ [k]) with
  | some digits => rw [hlong] at hnone; cases hnone
  | none =>
    rw [hlong] at hnone
    dsimp only at hnone
    rcases hkept with hmem | hremove
    · rw [hxn] at hnone
      by_cases hremove : policy.allowRemoveTabs = true <;> simp [hmem, hremove] at hnone
    · simp [hremove] at hnone

theorem droppedNames_eq_nil (h : policy.overwriteGuardrail path d v inserting = none)
    (hpath : keys? path = some t) (hc : c ∈ Collection.tabHolders) :
    policy.droppedNames t d v inserting c = [] := by
  unfold overwriteGuardrail at h
  rw [hpath] at h
  have hnone := List.findSome?_eq_none_iff.1 h c hc
  unfold overwriteObjection at hnone
  dsimp only at hnone
  split at hnone
  · cases hnone
  · simpa using hnone

/-- Where a whole collection is written, the names are dropped that the new one lacks. -/
theorem droppedNames_of_above (habove : t <+: c.keys) :
    policy.droppedNames t d v inserting c =
      (policy.protectedAmong (c.itemsIn d)).filter fun name =>
        !((c.itemsFrom t v).filterMap tabName?).contains name := by
  rw [c.namesFrom_eq]
  unfold droppedNames
  dsimp only
  split
  · rename_i hnone
    rw [List.isEmpty_iff.1 hnone]
    rfl
  · exact if_pos (List.isPrefixOf_iff_prefix.2 habove)

/-- Where something is written at a tab or in it, only the name of the tab can be dropped. -/
theorem droppedNames_of_below {r : List String} (hn : n ∈ policy.protectedAmong (c.itemsIn d))
    (hname : (d.at? (c.keys ++ [k])).bind tabName? = some n) :
    policy.droppedNames (c.keys ++ k :: r) d v inserting c =
      match r.head? with
      | none => if inserting || tabName? v = some n then [] else [n]
      | some member => if (member = "name" ∨ member = "label") ∧ v.str? ≠ some n then [n] else [] := by
  have hsome : ¬ (policy.protectedAmong (c.itemsIn d)).isEmpty = true := by
    intro hnone
    rw [List.isEmpty_iff.1 hnone] at hn
    cases hn
  -- The path is longer than that of the collection, so the branch for whole collections is not taken.
  have hnot : ¬ (c.keys ++ k :: r).isPrefixOf c.keys = true := by
    intro hpre
    have hlength := (List.isPrefixOf_iff_prefix.1 hpre).length_le
    rw [List.length_append, List.length_cons] at hlength
    omega
  have hbelow : c.keys.isPrefixOf (c.keys ++ k :: r) = true :=
    List.isPrefixOf_iff_prefix.2 (List.prefix_append _ _)
  have htake : (c.keys ++ k :: r).take (c.keys.length + 1) = c.keys ++ [k] := by
    rw [List.take_length_add_append]
    rfl
  have hlast : (c.keys ++ k :: r)[c.keys.length + 1]? = r.head? := by
    rw [List.getElem?_append_right (by omega), List.head?_eq_getElem?]
    simp
  have hprotected : policy.protectedTabs.contains n = true :=
    List.contains_iff_mem.2 (mem_protectedAmong.1 hn).2
  unfold droppedNames
  dsimp only
  rw [if_neg hsome, if_neg hnot, if_pos hbelow, htake, hname, hlast]
  dsimp only
  rw [hprotected]
  cases r.head? <;> rfl

/-- A write takes no protected name from an item, unless it is made inside of the name. -/
theorem sparesName_of_overwriteGuardrail (h : policy.overwriteGuardrail path d v inserting = none)
    (hpath : keys? path = some t) (hc : c ∈ Collection.tabHolders) (hn : n ∈ c.namesIn d)
    (hprotected : n ∈ policy.protectedTabs) (hinside : ¬ c.InsideName t) :
    c.SparesName n d t v inserting := by
  have hdropped := droppedNames_eq_nil h hpath hc
  have hbefore : n ∈ policy.protectedAmong (c.itemsIn d) := mem_protectedAmong.2 ⟨hn, hprotected⟩
  refine ⟨fun habove => ?_, fun hreplacing k hk hname => ?_, fun k m hm hat hname => ?_, hinside⟩
  · rw [droppedNames_of_above habove] at hdropped
    simpa using List.filter_eq_nil_iff.1 hdropped n hbefore
  · subst hk
    rw [droppedNames_of_below hbefore hname] at hdropped
    simpa [hreplacing] using hdropped
  · subst hm
    rw [droppedNames_of_below hbefore hname] at hdropped
    simpa [hat] using hdropped

end Policy

end Dashboards
