import Dashboards.Changes
import Dashboards.Proofs.Pointer.Locations
import Dashboards.Proofs.Policy.Items

/-!
# The sizes of collections

The ceilings of the policy measure a collection as the list that a pointer resolves to.  The preview and
the validation of a document walk down the members of objects instead and know no items of arrays.
Where no key on the way can be an index, both find the list at the same location, so the size that is
guarded is the one that is previewed and the one that is validated; and a way with such a key has
documents on which they differ.
-/

namespace Dashboards

/-! ## 1. Walks by members alone -/

namespace Value

variable {v : Value} {keys s t : List String} {key : String} {i : Nat}

/-- Counting goes down the members of objects. -/
theorem countAt_eq_lengthOf (v : Value) (keys : List String) :
    v.countAt keys = lengthOf (v.follow? (keys.map .member)) := by
  induction keys generalizing v with
  | nil => cases v <;> rfl
  | cons key keys ih =>
    cases v with
    | obj ms =>
      rw [countAt, List.map_cons, follow?, child?]
      cases Members.get? ms key with
      | none => rfl
      | some x => exact ih x
    | _ => rfl

/-- Where no key is an index, a pointer goes down the members of objects as well. -/
theorem at?_eq_follow? (h : ∀ key ∈ keys, indexOf? key = none) (v : Value) :
    v.at? keys = v.follow? (keys.map .member) := by
  induction keys generalizing v with
  | nil => cases v <;> rfl
  | cons key keys ih =>
    obtain ⟨hkey, hkeys⟩ := List.forall_mem_cons.1 h
    cases v with
    | obj ms =>
      rw [at?, List.map_cons, follow?, child?]
      exact congrArg _ (funext (ih hkeys))
    | arr xs =>
      rw [at?, hkey]
      rfl
    | _ => rfl

theorem overlongAt?_eq_none (h : ∀ key ∈ keys, indexOf? key = none) (v : Value) :
    v.overlongAt? keys = none := by
  induction keys generalizing v with
  | nil => cases v <;> rfl
  | cons key keys ih =>
    obtain ⟨hkey, hkeys⟩ := List.forall_mem_cons.1 h
    cases v with
    | obj ms =>
      rw [overlongAt?]
      cases Members.get? ms key with
      | none => rfl
      | some x => exact ih hkeys x
    | arr xs =>
      have hlong : overlongIndex? key = none := by simp [overlongIndex?, hkey]
      rw [overlongAt?, hlong, hkey]
      rfl
    | _ => rfl

/-- Objects inside one another, with a value at the end of the keys. -/
def nest (keys : List String) (v : Value) : Value := keys.foldr (fun key x => .obj [(key, x)]) v

theorem at?_nest (s t : List String) (v : Value) : (nest s v).at? (s ++ t) = v.at? t := by
  induction s with
  | nil => rfl
  | cons key s ih =>
    rw [List.cons_append, nest, List.foldr_cons, at?, Members.get?, if_pos rfl]
    exact ih

theorem countAt_nest (s t : List String) (v : Value) :
    (nest s v).countAt (s ++ t) = v.countAt t := by
  induction s with
  | nil => rfl
  | cons key s ih =>
    rw [List.cons_append, nest, List.foldr_cons, countAt, Members.get?, if_pos rfl]
    exact ih

end Value

/-! ## 2. Both measures -/

namespace Patch

variable {keys : List String} {key : String} {i : Nat}

theorem lengthAt_eq_ok (h : ∀ key ∈ keys, indexOf? key = none) (doc : Value) :
    lengthAt ⟨keys⟩ doc = .ok (doc.countAt keys) := by
  have hvalue : valueAt ⟨keys⟩ doc = .ok (doc.follow? (keys.map .member)) :=
    valueAt_eq_ok_iff.2 ⟨Value.overlongAt?_eq_none h doc, Value.at?_eq_follow? h doc⟩
  rw [lengthAt, hvalue, Value.countAt_eq_lengthOf]
  rfl

/-- A pointer with an index in it finds a list behind an array, which the other walk does not. -/
theorem exists_lengthAt_ne (hkey : key ∈ keys) (hi : indexOf? key = some i) :
    ∃ doc : Value, lengthAt ⟨keys⟩ doc ≠ .ok (doc.countAt keys) := by
  obtain ⟨s, t, rfl⟩ := List.append_of_mem hkey
  let last : Value := .arr [.null]
  let items : List Value := List.replicate i .null ++ [Value.nest t last]
  refine ⟨Value.nest s (.arr items), fun h => ?_⟩
  have hcount : (Value.nest s (.arr items)).countAt (s ++ key :: t) = 0 := by
    rw [Value.countAt_nest]
    rfl
  have hitem : items[i]? = some (Value.nest t last) := by
    rw [List.getElem?_append_right (by simp)]
    simp
  have hfound : (Value.nest s (.arr items)).at? (s ++ key :: t) = some last := by
    rw [Value.at?_nest, Value.at?_item hi hitem]
    simpa [Value.at?] using Value.at?_nest t [] last
  rw [hcount, lengthAt] at h
  cases hvalue : valueAt ⟨s ++ key :: t⟩ (Value.nest s (.arr items)) with
  | error f =>
    rw [hvalue] at h
    cases h
  | ok found =>
    obtain rfl : some last = found := hfound.symm.trans (valueAt_eq_ok_iff.1 hvalue).2
    rw [hvalue] at h
    cases h

end Patch

/-! ## 3. The bounded collections -/

namespace Collection

variable (c : Collection) (doc : Value)

theorem indexOf?_of_mem_keys : ∀ key ∈ c.keys, indexOf? key = none :=
  fun key hkey => (c.memberKey_of_mem_keys key hkey).1

theorem lengthIn_eq_lengthOf : c.lengthIn doc = lengthOf (doc.at? c.keys) := by
  rw [lengthIn, itemsIn_eq_getD]
  rfl

/-- The length that has a ceiling is the number that is counted. -/
theorem countAt_keys : doc.countAt c.keys = c.lengthIn doc := by
  rw [lengthIn_eq_lengthOf, Value.countAt_eq_lengthOf,
    Value.at?_eq_follow? c.indexOf?_of_mem_keys]

theorem lengthAt_pointer : Patch.lengthAt c.pointer doc = .ok (c.lengthIn doc) := by
  rw [pointer, Patch.lengthAt_eq_ok c.indexOf?_of_mem_keys, countAt_keys]

end Collection

theorem Preview.ofDocument_eq (doc : Value) :
    Preview.ofDocument doc =
      { kpis := Collection.kpis.lengthIn doc
        charts := Collection.charts.lengthIn doc
        tabs := tabNames doc
        funnelSteps :=
          if Collection.funnelStages.lengthIn doc = 0 then Collection.funnelSteps.lengthIn doc
          else Collection.funnelStages.lengthIn doc
        filters := Collection.filters.lengthIn doc } := by
  simp only [← Collection.countAt_keys]
  unfold Preview.ofDocument
  congr 1
  split
  · rename_i hzero
    exact (if_pos hzero).symm
  · rename_i hpositive
    exact (if_neg hpositive).symm

/-- The warning of a document without content is none of the others. -/
theorem emptyWarning_ne (tab : String) :
    "Dashboard has no KPIs, charts or funnel stages" ≠ s!"Dashboard has no '{tab}' tab" := by
  intro h
  change _ = "Dashboard has no '" ++ tab ++ "' tab" at h
  have hprefix := congrArg (fun text => text.toList.take 18) h
  simp at hprefix

/-- Validation misses content in a document exactly if it is an object without items in its KPIs, its
charts and its funnel. -/
theorem mem_warnings_iff (doc : Value) (tab : String) :
    "Dashboard has no KPIs, charts or funnel stages" ∈ (validateStructure doc tab).warnings ↔
      doc.isObject = true ∧
        ∀ c ∈ [Collection.kpis, .charts, .funnelStages, .funnelSteps], c.lengthIn doc = 0 := by
  cases doc with
  | obj ms =>
    have hversion : "Dashboard has no KPIs, charts or funnel stages" ≠ "Dashboard has no version" := by
      decide
    have hlengths : (∀ c ∈ [Collection.kpis, .charts, .funnelStages, .funnelSteps],
        c.lengthIn (.obj ms) = 0) ↔
          (Value.obj ms).countAt ["kpis"] + (Value.obj ms).countAt ["charts"] +
            (Value.obj ms).countAt ["funnel", "stages"] +
            (Value.obj ms).countAt ["funnel", "steps"] = 0 := by
      simp only [← Collection.countAt_keys, List.forall_mem_cons, List.not_mem_nil, Collection.keys]
      simp [and_assoc]
    rw [hlengths, validateStructure]
    simp only [List.mem_append, List.mem_ite_nil_left, List.mem_ite_nil_right, List.mem_singleton,
      hversion, emptyWarning_ne tab, and_false, and_true, false_or, or_false]
    exact ⟨fun h => ⟨rfl, h⟩, And.right⟩
  | _ => exact ⟨fun h => absurd h List.not_mem_nil, fun h => nomatch h.1⟩

/-- What a summary counts are bounded collections. -/
theorem exists_collection_of_summarized {label : String} {keys : List String}
    (h : (label, keys) ∈ summarizedCollections) : ∃ c : Collection, c.keys = keys := by
  simp only [summarizedCollections, List.mem_cons, Prod.mk.injEq, List.not_mem_nil, or_false] at h
  obtain ⟨-, rfl⟩ | ⟨-, rfl⟩ | ⟨-, rfl⟩ | ⟨-, rfl⟩ | ⟨-, rfl⟩ := h
  · exact ⟨.kpis, rfl⟩
  · exact ⟨.charts, rfl⟩
  · exact ⟨.funnelStages, rfl⟩
  · exact ⟨.funnelSteps, rfl⟩
  · exact ⟨.filters, rfl⟩

/-- The length of the list that a pointer resolves to is the number that is counted down the members of
objects, for all documents exactly if no key of the pointer can be an index.  So a bounded collection has
one size in a document: it is the one that has a ceiling, the one that previews and summaries of the
document show, and the one by which validation finds it to have content. -/
theorem sizes_agree :
    (∀ keys : List String, (∀ key ∈ keys, indexOf? key = none) ↔
        ∀ doc : Value, Patch.lengthAt ⟨keys⟩ doc = .ok (doc.countAt keys)) ∧
      ∀ doc : Value,
        (∀ c : Collection, Patch.lengthAt c.pointer doc = .ok (c.lengthIn doc) ∧
          doc.countAt c.keys = c.lengthIn doc) ∧
        (Preview.ofDocument doc =
          { kpis := Collection.kpis.lengthIn doc
            charts := Collection.charts.lengthIn doc
            tabs := tabNames doc
            funnelSteps :=
              if Collection.funnelStages.lengthIn doc = 0 then Collection.funnelSteps.lengthIn doc
              else Collection.funnelStages.lengthIn doc
            filters := Collection.filters.lengthIn doc }) ∧
        (∀ label keys, (label, keys) ∈ summarizedCollections →
          ∃ c : Collection, c.keys = keys ∧ doc.countAt keys = c.lengthIn doc) ∧
        ∀ tab,
          "Dashboard has no KPIs, charts or funnel stages" ∈ (validateStructure doc tab).warnings ↔
            doc.isObject = true ∧
              ∀ c ∈ [Collection.kpis, .charts, .funnelStages, .funnelSteps], c.lengthIn doc = 0 := by
  refine ⟨fun keys => ⟨Patch.lengthAt_eq_ok, fun h key hkey => ?_⟩, fun doc => ⟨fun c => ?_,
    Preview.ofDocument_eq doc, fun label keys hlabel => ?_, mem_warnings_iff doc⟩⟩
  · cases hi : indexOf? key with
    | none => rfl
    | some i =>
      obtain ⟨doc, hne⟩ := Patch.exists_lengthAt_ne hkey hi
      exact absurd (h doc) hne
  · exact ⟨c.lengthAt_pointer doc, c.countAt_keys doc⟩
  · obtain ⟨c, rfl⟩ := exists_collection_of_summarized hlabel
    exact ⟨c, rfl, c.countAt_keys doc⟩

end Dashboards
