import Dashboards.Proofs.Patch.Inverses
import Dashboards.Proofs.Policy.Guards
import Dashboards.Proofs.Policy.Readable

/-!
# Writes to a member of a protected tab

A tab is shown by its name, and by its label where it has no name.  The guardrail for writes looks at
the member that is written and at the new text, and not at which of the two members is shown.  So it
objects to each write that renames a protected tab, and to one kind of write that does not: another
text as the label of a tab that has a name.
-/

namespace Dashboards

open Patch

variable {policy : Policy} {path k m n : String} {p : Pointer} {d v : Value} {c : Collection}
  {i : Nat} {ms : Members Value} {r : List String} {inserting : Bool}

/-! ## 1. The name of a tab after a write -/

/-- A tab keeps its name exactly if the member that is set is not the one that is shown, or gets the
name as its text. -/
theorem tabName?_set_eq_some_iff (hname : tabName? (.obj ms) = some n) :
    tabName? (.obj (ms.set m v)) = some n ↔
      (m = "name" ∨ m = "label" ∧ ms.get? "name" = none → v.str? = some n) := by
  rw [tabName?_obj] at hname ⊢
  by_cases hm : m = "name"
  · subst hm
    simp
  · rw [Members.get?_set_of_ne _ _ (Ne.symm hm)]
    cases hshown : ms.get? "name" with
    | some u =>
      rw [hshown] at hname
      simpa [hm] using hname
    | none =>
      by_cases hlabel : m = "label"
      · subst hlabel
        simp
      · rw [hshown] at hname
        rw [Members.get?_set_of_ne _ _ (Ne.symm hlabel)]
        simpa [hm, hlabel] using hname

/-- Another text than the name is written as the label of a tab that has a name member, so that the
label is not shown. -/
def RelabelsNamed (ms : Members Value) (m : String) (v : Value) (n : String) : Prop :=
  m = "label" ∧ (ms.get? "name").isSome = true ∧ v.str? ≠ some n

/-- The members and texts that the guardrail for writes objects to. -/
theorem name_or_label_iff (hname : tabName? (.obj ms) = some n) :
    (m = "name" ∨ m = "label") ∧ v.str? ≠ some n ↔
      tabName? (.obj (ms.set m v)) ≠ some n ∨ RelabelsNamed ms m v n := by
  have hkept : tabName? (.obj (ms.set m v)) ≠ some n ↔
      (m = "name" ∨ m = "label" ∧ ms.get? "name" = none) ∧ v.str? ≠ some n := by
    rw [ne_eq, tabName?_set_eq_some_iff hname, Classical.not_imp]
  rw [hkept, RelabelsNamed]
  -- The label is shown, and so counts for the name, or is not, and is then counted apart.
  cases ms.get? "name" with
  | some u =>
    simp only [reduceCtorEq, and_false, or_false, Option.isSome_some, true_and]
    exact or_and_right
  | none => simp

/-! ## 2. The guardrail -/

namespace Policy

/-- A write below a holder of tabs is looked at for the tabs of this holder alone. -/
theorem overwriteGuardrail_of_below (hpath : keys? path = some (c.keys ++ k :: r))
    (hc : c ∈ Collection.tabHolders) :
    policy.overwriteGuardrail path d v inserting =
      policy.overwriteObjection (c.keys ++ k :: r) d v inserting c := by
  have hother : ∀ holder ∈ Collection.tabHolders, holder ≠ c →
      policy.overwriteObjection (c.keys ++ k :: r) d v inserting holder = none := by
    intro holder hholder hne
    -- The first keys of the two holders differ.
    apply overwriteObjection_of_unrelated <;>
      cases c <;> cases holder <;>
        simp_all [Collection.tabHolders, Collection.keys, List.cons_prefix_cons]
  unfold overwriteGuardrail
  rw [hpath]
  simp only [Collection.tabHolders, List.mem_cons, List.not_mem_nil, or_false, bind, Option.bind,
    List.findSome?_cons, List.findSome?_nil] at hc hother ⊢
  rcases hc with rfl | rfl
  · rw [hother .uiTabs (.inr rfl) (by decide)]
    cases policy.overwriteObjection _ d v inserting .tabs <;> rfl
  · rw [hother .tabs (.inl rfl) (by decide)]
    cases policy.overwriteObjection _ d v inserting .uiTabs <;> rfl

/-- A write of a member of a protected tab is objected to exactly if the member is the name or the label
and gets another text. -/
theorem overwriteGuardrail_of_member (hc : c ∈ Collection.tabHolders)
    (hpath : keys? path = some (c.keys ++ [k, m])) (hk : ReadableKeys (c.keys ++ [k]))
    (hname : (d.at? (c.keys ++ [k])).bind tabName? = some n)
    (hn : n ∈ policy.protectedAmong (c.itemsIn d)) :
    policy.overwriteGuardrail path d v inserting =
      if (m = "name" ∨ m = "label") ∧ v.str? ≠ some n then some (.protectedTab n) else none := by
  have htake : (c.keys ++ [k, m]).take (c.keys.length + 1) = c.keys ++ [k] := by
    rw [List.take_length_add_append]
    rfl
  have hread : (if c.keys.isPrefixOf (c.keys ++ [k, m]) && !(c.keys ++ [k, m]).isPrefixOf c.keys &&
      !(policy.protectedAmong (c.itemsIn d)).isEmpty then d.overlongAt? (c.keys ++ [k]) else none) =
      none := by
    rw [hk.overlongAt?]
    exact ite_self none
  rw [overwriteGuardrail_of_below hpath hc]
  unfold overwriteObjection
  dsimp only
  rw [htake, hread, droppedNames_of_below hn hname]
  dsimp only [List.head?_cons]
  split <;> rfl

end Policy

/-! ## 3. The write -/

/-- The keys to an item are readable, as the keys of a collection are no indices. -/
theorem Collection.readableKeys_item (c : Collection) (hindex : indexIn p k = .ok i) :
    ReadableKeys (c.keys ++ [k]) := by
  intro key hkey
  rcases List.mem_append.1 hkey with hmem | hlast
  · have hnone := (c.memberKey_of_mem_keys key hmem).1
    unfold overlongIndex?
    rw [hnone]
    exact if_neg fun h => absurd h.2 Bool.false_ne_true
  · obtain rfl := List.mem_singleton.1 hlast
    exact overlongIndex?_of_indexIn hindex

/-- An addition and a replacement at a member of a tab both set the member. -/
theorem exists_set_member (hp : p.keys = c.keys ++ [k, m]) (hk : ReadableKeys (c.keys ++ [k]))
    (htab : d.at? (c.keys ++ [k]) = some (.obj ms)) (v : Value) :
    ∃ e, add p v d = .done e ∧ replace p v d = .done e ∧
      e.at? (c.keys ++ [k]) = some (.obj (ms.set m v)) := by
  have hkeys : p.keys = (c.keys ++ [k]) ++ [m] := by rw [hp, List.append_assoc]; rfl
  have hlong : d.overlongAt? ((c.keys ++ [k]) ++ [m]) = none := by
    rw [Value.overlongAt?_append htab (hk.overlongAt? d), Value.overlongAt?,
      Option.bind_eq_none_iff]
    intro x _
    cases x <;> rfl
  obtain ⟨f, hf, rfl⟩ := Value.exists_frame htab hlong
  have hat := hf.at?_append (.obj (ms.set m v)) []
  rw [List.append_nil] at hat
  exact ⟨_, add_frame hf rfl hkeys rfl, replace_frame hf rfl hkeys rfl, hat⟩

/-- For every member of a protected tab and every value: an addition and a replacement there come to the
same, and the guardrail objects to them exactly if the tab goes by another name afterwards, or another
text is written as its label while it has a name.  So but for labels that are not shown, the guardrail
objects exactly to the writes that rename the tab. -/
theorem overwriteGuardrail_iff_renamed (hc : c ∈ Collection.tabHolders)
    (hpath : Pointer.parse path = .ok p) (hp : p.keys = c.keys ++ [k, m])
    (hindex : indexIn p k = .ok i) (htab : (c.itemsIn d)[i]? = some (.obj ms))
    (hname : tabName? (.obj ms) = some n) (hprotected : n ∈ policy.protectedTabs) (v : Value)
    (inserting : Bool) :
    ∃ e, add p v d = .done e ∧ replace p v d = .done e ∧
      ∀ o, policy.overwriteGuardrail path d v inserting = some o ↔
        o = .protectedTab n ∧
          ((e.at? (c.keys ++ [k])).bind tabName? ≠ (d.at? (c.keys ++ [k])).bind tabName? ∨
            RelabelsNamed ms m v n) := by
  have hd : d.at? (c.keys ++ [k]) = some (.obj ms) := Collection.at?_item (indexIn_eq_ok hindex) htab
  have hk : ReadableKeys (c.keys ++ [k]) := c.readableKeys_item hindex
  have hn : n ∈ policy.protectedAmong (c.itemsIn d) :=
    Policy.mem_protectedAmong.2
      ⟨List.mem_filterMap.2 ⟨_, List.mem_of_getElem? htab, hname⟩, hprotected⟩
  have hkeys : Policy.keys? path = some (c.keys ++ [k, m]) := by
    rw [Policy.keys?, hpath, ← hp]
    rfl
  obtain ⟨e, hadd, hreplace, he⟩ := exists_set_member hp hk hd v
  refine ⟨e, hadd, hreplace, fun o => ?_⟩
  rw [he, hd, Option.bind_some, Option.bind_some, hname, ← name_or_label_iff hname,
    Policy.overwriteGuardrail_of_member hc hkeys hk (by rw [hd]; exact hname) hn,
    Option.ite_none_right_eq_some, Option.some.injEq, and_comm, eq_comm]

/-- A document with one tab, which has a name and a label. -/
def labelledTab (name label : String) : Value :=
  .obj [("tabs", .arr [.obj [("name", .str name), ("label", .str label)]])]

theorem overwriteGuardrail_iff_renamed_details :
    add ⟨["tabs", "0", "name"]⟩ (.str "Data") (labelledTab "Details" "Info") =
        .done (labelledTab "Data" "Info") ∧
      Policy.default.overwriteGuardrail "/tabs/0/name" (labelledTab "Details" "Info") (.str "Data")
        false = some (.protectedTab "Details") := by
  have parsed : Pointer.parse "/tabs/0/name" = .ok ⟨["tabs", "0", "name"]⟩ := by decide +kernel
  have renamed : add ⟨["tabs", "0", "name"]⟩ (.str "Data") (labelledTab "Details" "Info") =
      .done (labelledTab "Data" "Info") := rfl
  obtain ⟨e, hadd, -, hguard⟩ := overwriteGuardrail_iff_renamed (d := labelledTab "Details" "Info")
    (c := .tabs) (by decide) parsed rfl (i := 0) (by decide +kernel) rfl rfl
    (by decide +kernel : "Details" ∈ Policy.default.protectedTabs) (.str "Data") false
  obtain rfl : e = labelledTab "Data" "Info" := congrArg Attempt.document (hadd.symm.trans renamed)
  exact ⟨renamed, (hguard _).2 ⟨rfl, .inl (by decide +kernel)⟩⟩

/-- The label of a tab that goes by its name is kept as it is: another text there renames nothing and is
objected to, while the same tab as a whole is let through. -/
theorem overwriteGuardrail_of_hiddenLabel :
    replace ⟨["tabs", "0", "label"]⟩ (.str "Data") (labelledTab "Details" "Info") =
        .done (labelledTab "Details" "Data") ∧
      ((labelledTab "Details" "Info").at? ["tabs", "0"]).bind tabName? = some "Details" ∧
      ((labelledTab "Details" "Data").at? ["tabs", "0"]).bind tabName? = some "Details" ∧
      Policy.default.overwriteGuardrail "/tabs/0/label" (labelledTab "Details" "Info") (.str "Data")
        false = some (.protectedTab "Details") ∧
      Policy.default.overwriteGuardrail "/tabs/0" (labelledTab "Details" "Info")
        (.obj [("name", .str "Details"), ("label", .str "Data")]) false = none := by
  refine ⟨rfl, ?_⟩
  decide +kernel

end Dashboards
