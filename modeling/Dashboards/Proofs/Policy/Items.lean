import Mathlib.Data.List.Perm.Basic
import Dashboards.Proofs.Patch.Places
import Dashboards.Proofs.Policy.Redaction

/-!
# The items of a collection under writes and removals

A write or a removal concerns a collection in one of three ways: it takes the place of the whole
collection, it happens in the list of its items, or it leaves it alone.  From this it follows which
names of tabs stay in a collection and how long it becomes.
-/

namespace Dashboards

open Patch

/-! ## 1. Names of tabs -/

section Names

variable {leaf : String → Value → Except Fault Value} {q : Pointer} {v w x : Value}
  {ms : Members Value} {key m : String} {r : List String}

theorem tabName?_obj (ms : Members Value) :
    tabName? (.obj ms) =
      ((Members.get? ms "name").orElse fun _ => Members.get? ms "label").bind Value.str? := by
  unfold tabName?
  dsimp only
  cases (Members.get? ms "name").orElse fun _ => Members.get? ms "label" with
  | none => rfl
  | some v => cases v <;> rfl

/-- A tab goes by the same name when a member is set, unless it is the name or the label that gets
another text, or a name that was not there. -/
theorem tabName?_set (hthere : key = "name" → (Members.get? ms key).isSome = true)
    (htext : key = "name" ∨ key = "label" → w.str? = (Members.get? ms key).bind Value.str?) :
    tabName? (.obj (ms.set key w)) = tabName? (.obj ms) := by
  rw [tabName?_obj, tabName?_obj]
  by_cases hname : key = "name"
  · subst hname
    obtain ⟨u, hu⟩ := Option.isSome_iff_exists.1 (hthere rfl)
    have hw := htext (.inl rfl)
    rw [hu] at hw
    rw [Members.get?_set_self, hu]
    exact hw
  · rw [Members.get?_set_of_ne _ _ fun h => hname h.symm]
    cases Members.get? ms "name" with
    | some u => rfl
    | none =>
      by_cases hlabel : key = "label"
      · subst hlabel
        rw [Members.get?_set_self]
        exact htext (.inr rfl)
      · rw [Members.get?_set_of_ne _ _ fun h => hlabel h.symm]

theorem tabName?_erase (hname : key ≠ "name") (hlabel : key ≠ "label") :
    tabName? (.obj (ms.erase key)) = tabName? (.obj ms) := by
  rw [tabName?_obj, tabName?_obj, Members.get?_erase_of_ne _ hname.symm,
    Members.get?_erase_of_ne _ hlabel.symm]

theorem str?_of_isCollection (h : v.isCollection = true) : v.str? = none := by
  cases v <;> first | rfl | cases h

theorem str?_descend (hleaf : Writes leaf v) (h : (descend leaf q x (m :: r)).fault = none) :
    (descend leaf q x (m :: r)).document.str? = none := by
  have hx := isCollection_of_descend hleaf h
  cases x with
  | arr xs =>
    obtain ⟨ys, hys⟩ := descend_arr_eq_done hleaf h
    rw [hys]
    rfl
  | obj ms =>
    obtain ⟨ns, hns⟩ := document_descend_obj hleaf h
    rw [hns]
    rfl
  | _ => cases hx

/-- A write inside a tab leaves its name alone, unless it is made at the name or the label, or in a
name that has to be made for it. -/
theorem tabName?_descend (hleaf : Writes leaf v) (h : (descend leaf q x (m :: r)).fault = none)
    (hat : r = [] → m ≠ "name" ∧ m ≠ "label") (hinside : r ≠ [] → m ≠ "name") :
    tabName? (descend leaf q x (m :: r)).document = tabName? x := by
  have hx := isCollection_of_descend hleaf h
  cases x with
  | arr xs =>
    obtain ⟨ys, hys⟩ := descend_arr_eq_done hleaf h
    rw [hys]
    rfl
  | obj ms =>
    cases r with
    | nil =>
      obtain ⟨w, hw, hdocument⟩ := descend_singleton h
      rw [hleaf.object] at hw
      cases hw
      obtain ⟨hname, hlabel⟩ := hat rfl
      rw [hdocument]
      exact tabName?_set (fun h => absurd h hname) fun h => absurd h (not_or.2 ⟨hname, hlabel⟩)
    | cons next rest =>
      have hname := hinside (List.cons_ne_nil _ _)
      obtain ⟨y, hentry, hfault, hdocument⟩ := descend_member h
      rw [hdocument]
      refine tabName?_set (fun h => absurd h hname) fun _ => ?_
      -- What the walk goes through is no text, and neither is what it leaves.
      rw [str?_descend hleaf hfault]
      rcases entryFor_eq_ok hentry with hget | ⟨hget | hget, -⟩
      · rw [hget]
        exact (str?_of_isCollection (isCollection_of_descend hleaf hfault)).symm
      · rw [hget]
        rfl
      · rw [hget]
        rfl
  | _ => cases hx

/-- A tab whose name or label is written anew goes by the text that is written, if it went by it. -/
theorem tabName?_of_leaf {n : String} (hleaf : Writes leaf v) (hm : m = "name" ∨ m = "label")
    (htext : v.str? = some n) (hname : tabName? x = some n) (h : leaf m x = .ok w) :
    tabName? w = some n := by
  cases x with
  | obj ms =>
    rw [hleaf.object] at h
    cases h
    rw [tabName?_obj] at hname ⊢
    rcases hm with rfl | rfl
    · rw [Members.get?_set_self]
      exact htext
    · rw [Members.get?_set_of_ne _ _ (by decide), Members.get?_set_self]
      cases hget : Members.get? ms "name" with
      | none => exact htext
      | some u =>
        rw [hget] at hname
        exact hname
  | str s => cases hleaf.scalar h
  | _ => cases hname

theorem str?_eraseAt (x : Value) (r : List String) : (eraseAt x r).str? = x.str? := by
  cases x with
  | arr xs =>
    obtain ⟨ys, hys⟩ := eraseAt_arr_eq xs r
    rw [hys]
    rfl
  | obj ms =>
    cases r with
    | nil => rfl
    | cons key r =>
      cases r with
      | nil => rfl
      | cons next rest =>
        rw [eraseAt_obj]
        split <;> rfl
  | _ => rw [eraseAt_scalar rfl]

theorem tabName?_eraseAt (hat : r = [] → m ≠ "name" ∧ m ≠ "label") :
    tabName? (eraseAt x (m :: r)) = tabName? x := by
  cases x with
  | arr xs =>
    obtain ⟨ys, hys⟩ := eraseAt_arr_eq xs (m :: r)
    rw [hys]
    rfl
  | obj ms =>
    cases r with
    | nil =>
      obtain ⟨hname, hlabel⟩ := hat rfl
      exact tabName?_erase hname hlabel
    | cons next rest =>
      rw [eraseAt_obj]
      cases hget : Members.get? ms m with
      | none => rfl
      | some y =>
        refine tabName?_set (fun _ => ?_) fun _ => ?_
        · rw [hget]
          rfl
        · rw [hget]
          exact str?_eraseAt y _
  | _ => rw [eraseAt_scalar rfl]

end Names

/-! ## 2. Lists with one place changed -/

section Lists

variable {α β : Type} {f : α → Option β} {xs : List α} {b : β} {i : Nat} {y : α}

theorem mem_filterMap_set (h : b ∈ xs.filterMap f)
    (hplace : ∀ x, xs[i]? = some x → f x = some b → f y = some b) : b ∈ (xs.set i y).filterMap f := by
  obtain ⟨x, hx, hb⟩ := List.mem_filterMap.1 h
  obtain ⟨j, hj⟩ := List.mem_iff_getElem?.1 hx
  by_cases hij : i = j
  · subst hij
    have hlt := (List.getElem?_eq_some_iff.1 hj).1
    exact List.mem_filterMap.2 ⟨y, List.mem_of_getElem? (List.getElem?_set_self hlt),
      hplace x hj hb⟩
  · rw [← List.getElem?_set_ne hij] at hj
    exact List.mem_filterMap.2 ⟨x, List.mem_of_getElem? hj, hb⟩

theorem mem_filterMap_insertIdx (h : b ∈ xs.filterMap f) (hi : i ≤ xs.length) :
    b ∈ (xs.insertIdx i y).filterMap f := by
  obtain ⟨x, hx, hb⟩ := List.mem_filterMap.1 h
  exact List.mem_filterMap.2 ⟨x, (List.mem_insertIdx hi).2 (.inr hx), hb⟩

theorem mem_filterMap_eraseIdx (h : b ∈ xs.filterMap f)
    (hplace : ∀ x, xs[i]? = some x → f x ≠ some b) : b ∈ (xs.eraseIdx i).filterMap f := by
  obtain ⟨x, hx, hb⟩ := List.mem_filterMap.1 h
  obtain ⟨j, hj⟩ := List.mem_iff_getElem?.1 hx
  have hij : j ≠ i := by
    rintro rfl
    exact hplace x hj hb
  exact List.mem_filterMap.2 ⟨x, List.mem_eraseIdx_iff_getElem?.2 ⟨j, hij, hj⟩, hb⟩

end Lists

/-! ## 3. Items -/

namespace Collection

variable {c : Collection} {leaf : String → Value → Except Fault Value} {q : Pointer}
  {d e v x : Value} {k : String} {r s t : List String} {n : String} {i : Nat}

theorem memberKey_of_mem_keys (c : Collection) : ∀ k ∈ c.keys, MemberKey k := by
  cases c <;> decide +kernel

/-- The items that a collection has once `v` stands at its place or at a place above it. -/
def itemsFrom (c : Collection) (t : List String) (v : Value) : List Value :=
  ((v.at? (c.keys.drop t.length)).bind Value.items?).getD []

/-- The names of the tabs in a collection. -/
def namesIn (c : Collection) (doc : Value) : List String := (c.itemsIn doc).filterMap tabName?

/-- The path is the name or the label of an item. -/
def NameOfItem (c : Collection) (t : List String) : Prop :=
  ∃ k, t = c.keys ++ [k, "name"] ∨ t = c.keys ++ [k, "label"]

/-- The path lies in the name of an item. -/
def InsideName (c : Collection) (t : List String) : Prop :=
  ∃ k k' r, t = c.keys ++ k :: "name" :: k' :: r

/-- What lies below an item in a path can be read off the path. -/
theorem exists_item_iff (hr : r ≠ []) :
    (∃ k, t = c.keys ++ k :: r) ↔ c.keys <+: t ∧ t.drop (c.keys.length + 1) = r := by
  constructor
  · rintro ⟨k, rfl⟩
    exact ⟨List.prefix_append _ _, List.drop_length_add_append 1⟩
  · rintro ⟨⟨s, rfl⟩, hdrop⟩
    rw [List.drop_length_add_append] at hdrop
    cases s with
    | nil => exact absurd hdrop.symm hr
    | cons k s => exact ⟨k, congrArg (fun r => c.keys ++ k :: r) hdrop⟩

instance (c : Collection) (t : List String) : Decidable (c.NameOfItem t) :=
  decidable_of_iff (c.keys <+: t ∧ t.drop (c.keys.length + 1) = ["name"] ∨
      c.keys <+: t ∧ t.drop (c.keys.length + 1) = ["label"]) <| by
    rw [← exists_item_iff (List.cons_ne_nil _ _), ← exists_item_iff (List.cons_ne_nil _ _),
      NameOfItem, exists_or]

instance (c : Collection) (t : List String) : Decidable (c.InsideName t) :=
  decidable_of_iff (c.keys <+: t ∧ (t.drop (c.keys.length + 1)).head? = some "name" ∧
      (t.drop (c.keys.length + 1)).tail ≠ []) <| by
    constructor
    · rintro ⟨hbelow, hname, hinside⟩
      obtain ⟨k', r, htail⟩ := List.exists_cons_of_ne_nil hinside
      have hdrop := List.eq_cons_of_mem_head? hname
      rw [htail] at hdrop
      obtain ⟨k, ht⟩ := (exists_item_iff (List.cons_ne_nil _ _)).2 ⟨hbelow, hdrop⟩
      exact ⟨k, k', r, ht⟩
    · rintro ⟨k, k', r, ht⟩
      obtain ⟨hbelow, hdrop⟩ := (exists_item_iff (List.cons_ne_nil _ _)).1 ⟨k, ht⟩
      rw [hdrop]
      exact ⟨hbelow, rfl, List.cons_ne_nil _ _⟩

theorem itemsIn_of_at? {xs : List Value} (h : d.at? c.keys = some (.arr xs)) : c.itemsIn d = xs := by
  rw [itemsIn_eq_getD, h]
  rfl

theorem itemsIn_eq_nil (h : ∀ xs, d.at? c.keys ≠ some (.arr xs)) : c.itemsIn d = [] := by
  rw [itemsIn_eq_getD]
  cases hd : d.at? c.keys with
  | none => rfl
  | some v =>
    cases v with
    | arr xs => exact absurd hd (h xs)
    | _ => rfl

theorem at?_item (hk : indexOf? k = some i) (hx : (c.itemsIn d)[i]? = some x) :
    d.at? (c.keys ++ [k]) = some x := by
  rw [Value.at?_bind]
  rw [itemsIn_eq_getD] at hx
  cases hd : d.at? c.keys with
  | none => rw [hd] at hx; cases hx
  | some v =>
    cases v with
    | arr xs =>
      rw [hd] at hx
      show ((indexOf? k).bind _).bind _ = _
      rw [hk]
      show (xs[i]?).bind _ = _
      rw [show xs[i]? = some x from hx]
      rfl
    | _ => rw [hd] at hx; cases hx

/-- Where a value is written at the place of a collection or above it, the collection has the items
of that value. -/
theorem itemsIn_of_above (hleaf : Writes leaf v) (ht : t ≠ []) (habove : t <+: c.keys)
    (h : (descend leaf q d t).fault = none) :
    c.itemsIn (descend leaf q d t).document = c.itemsFrom t v := by
  obtain ⟨r, hr⟩ := habove
  have hkeys : ∀ k ∈ t, MemberKey k := by
    intro k hk
    refine c.memberKey_of_mem_keys k ?_
    rw [← hr]
    exact List.mem_append_left _ hk
  have hat := at?_descend_of_above hleaf hkeys ht h r
  rw [hr] at hat
  rw [itemsIn_eq_getD, hat, itemsFrom, ← hr, List.drop_left]

theorem itemsIn_of_opened {xs : List Value} (h : Opened d c.keys k (.arr xs)) : c.itemsIn d = xs := by
  rcases h with hd | ⟨hd, hcontainer⟩
  · exact itemsIn_of_at? hd
  · rcases containerFor_eq_ok hcontainer with hxs | hxs
    · cases hxs
      refine itemsIn_eq_nil fun ys hys => ?_
      rw [hys] at hd
      rcases hd with hd | hd <;> cases hd
    · cases hxs

theorem itemsIn_of_opened_obj {ms : Members Value} (h : Opened d c.keys k (.obj ms)) :
    c.itemsIn d = [] := by
  refine itemsIn_eq_nil fun ys hys => ?_
  rcases h with hd | ⟨hd, -⟩
  · rw [hys] at hd
    cases hd
  · rw [hys] at hd
    rcases hd with hd | hd <;> cases hd

/-- A write below the place of a collection is a write in the list of its items, unless there is an
object at its place. -/
theorem itemsIn_of_below (hleaf : Writes leaf v)
    (h : (descend leaf q d (c.keys ++ k :: r)).fault = none) :
    (c.itemsIn d = [] ∧ c.itemsIn (descend leaf q d (c.keys ++ k :: r)).document = []) ∨
      descend leaf q (.arr (c.itemsIn d)) (k :: r) =
        .done (.arr (c.itemsIn (descend leaf q d (c.keys ++ k :: r)).document)) := by
  obtain ⟨x, hopened, hfault, hat⟩ := at?_descend_of_below h
  have hx := isCollection_of_descend hleaf hfault
  cases x with
  | arr xs =>
    right
    obtain ⟨ys, hys⟩ := descend_arr_eq_done hleaf hfault
    rw [hys] at hat
    rw [itemsIn_of_opened hopened, itemsIn_of_at? hat, hys]
  | obj ms =>
    left
    obtain ⟨ns, hns⟩ := document_descend_obj hleaf hfault
    refine ⟨itemsIn_of_opened_obj hopened, itemsIn_eq_nil fun ys hys => ?_⟩
    rw [hat, hns] at hys
    cases hys
  | _ => cases hx

/-- A write at the place of a collection or above it, a write in the list of its items, or one that
leaves them alone. -/
theorem itemsIn_write (c : Collection) (hleaf : Writes leaf v)
    (h : (if q.isRoot then .done v else descend leaf q d q.keys) = Attempt.done e) :
    (q.keys <+: c.keys ∧ c.itemsIn e = c.itemsFrom q.keys v) ∨
      (∃ k r, q.keys = c.keys ++ k :: r ∧
        ((c.itemsIn d = [] ∧ c.itemsIn e = []) ∨
          descend leaf q (.arr (c.itemsIn d)) (k :: r) = .done (.arr (c.itemsIn e)))) ∨
      ¬ q.keys <+: c.keys ∧ c.itemsIn e = c.itemsIn d := by
  by_cases hroot : q.isRoot = true
  · left
    rw [if_pos hroot] at h
    obtain rfl : v = e := congrArg Attempt.document h
    rw [List.isEmpty_iff.1 hroot]
    exact ⟨List.nil_prefix, itemsIn_eq_getD c v⟩
  · rw [if_neg hroot] at h
    have hfault := congrArg Attempt.fault h
    obtain rfl : (descend leaf q d q.keys).document = e := congrArg Attempt.document h
    by_cases habove : q.keys <+: c.keys
    · have hne : q.keys ≠ [] := fun hnil => hroot (List.isEmpty_iff.2 hnil)
      exact .inl ⟨habove, itemsIn_of_above hleaf hne habove hfault⟩
    · right
      by_cases hbelow : c.keys <+: q.keys
      · left
        obtain ⟨r, hr⟩ := hbelow
        cases r with
        | nil =>
          rw [List.append_nil] at hr
          exact absurd (hr ▸ List.prefix_rfl) habove
        | cons k r =>
          rw [← hr] at hfault ⊢
          exact ⟨k, r, rfl, itemsIn_of_below hleaf hfault⟩
      · right
        refine ⟨habove, ?_⟩
        rw [itemsIn_eq_getD, itemsIn_eq_getD,
          at?_descend_of_unrelated hleaf c.memberKey_of_mem_keys habove hbelow]

/-- A removal of a collection or of something above it, a removal in the list of its items, or one
that leaves them alone. -/
theorem itemsIn_eraseAt (c : Collection) (d : Value) (ht : t ≠ []) :
    (t <+: c.keys ∧ c.itemsIn (eraseAt d t) = []) ∨
      (∃ k r, t = c.keys ++ k :: r ∧
        eraseAt (.arr (c.itemsIn d)) (k :: r) = .arr (c.itemsIn (eraseAt d t))) ∨
      ¬ t <+: c.keys ∧ c.itemsIn (eraseAt d t) = c.itemsIn d := by
  have hkeys := c.memberKey_of_mem_keys
  by_cases habove : t <+: c.keys
  · left
    obtain ⟨r, hr⟩ := id habove
    refine ⟨habove, itemsIn_eq_nil fun xs hxs => ?_⟩
    have hprefix : ∀ k ∈ t, MemberKey k := by
      intro k hk
      refine hkeys k ?_
      rw [← hr]
      exact List.mem_append_left _ hk
    rw [← hr, at?_eraseAt_of_above hprefix ht] at hxs
    cases hxs
  · right
    by_cases hbelow : c.keys <+: t
    · left
      obtain ⟨r, rfl⟩ := hbelow
      cases r with
      | nil => exact absurd (by simp) habove
      | cons k r =>
        refine ⟨k, r, rfl, ?_⟩
        have hat := at?_eraseAt_of_below (d := d) (k := k) (r := r) hkeys
        by_cases hlist : ∃ xs, d.at? c.keys = some (.arr xs)
        · obtain ⟨xs, hxs⟩ := hlist
          obtain ⟨ys, hys⟩ := eraseAt_arr_eq xs (k :: r)
          rw [hxs, Option.map_some, hys] at hat
          rw [itemsIn_of_at? hxs, itemsIn_of_at? hat, hys]
        · rw [not_exists] at hlist
          -- Where there is no list, the removal makes none.
          have hnone : ∀ ys, (eraseAt d (c.keys ++ k :: r)).at? c.keys ≠ some (.arr ys) := by
            intro ys hys
            rw [hat] at hys
            obtain ⟨x, hx, herase⟩ := Option.map_eq_some_iff.1 hys
            obtain ⟨xs, rfl⟩ := eq_arr_of_eraseAt herase
            exact hlist xs hx
          rw [itemsIn_eq_nil hlist, itemsIn_eq_nil hnone, eraseAt_nil]
    · right
      refine ⟨habove, ?_⟩
      rw [itemsIn_eq_getD, itemsIn_eq_getD, at?_eraseAt_of_unrelated hkeys habove hbelow]

/-! ## 4. Names that stay -/

/-- Writing `v` at `t` takes the name `n` from no item of the collection: the whole collection is
written with an item of that name, and neither does an item lose its place to another one, nor its
name to another text, nor its label to a name that is no text. -/
structure SparesName (c : Collection) (n : String) (d : Value) (t : List String) (v : Value)
    (inserting : Bool) : Prop where
  above : t <+: c.keys → n ∈ (c.itemsFrom t v).filterMap tabName?
  item : inserting = false → ∀ k, t = c.keys ++ [k] →
    (d.at? t).bind tabName? = some n → tabName? v = some n
  member : ∀ k m, t = c.keys ++ [k, m] → m = "name" ∨ m = "label" →
    (d.at? (c.keys ++ [k])).bind tabName? = some n → v.str? = some n
  inside : ¬ c.InsideName t

section Write

variable {inserting : Bool} {ys : List Value} {m : String}

theorem mem_filterMap_of_descend (hleaf : Writes leaf v)
    (hspares : c.SparesName n d (c.keys ++ k :: m :: r) v inserting)
    (h : descend leaf q (.arr (c.itemsIn d)) (k :: m :: r) = .done (.arr ys))
    (hn : n ∈ c.namesIn d) : n ∈ ys.filterMap tabName? := by
  obtain ⟨i, x, hi, hx, hfault, hdocument⟩ := descend_item (congrArg Attempt.fault h)
  rw [h] at hdocument
  obtain rfl := Value.arr.inj hdocument
  refine mem_filterMap_set hn fun x' hx' hname => ?_
  obtain rfl : x = x' := Option.some.inj (hx.symm.trans hx')
  by_cases hat : r = [] ∧ (m = "name" ∨ m = "label")
  · obtain ⟨rfl, hm⟩ := hat
    have htext := hspares.member k m rfl hm (by rw [at?_item hi hx]; exact hname)
    obtain ⟨w, hw, hdocument'⟩ := descend_singleton hfault
    rw [hdocument']
    exact tabName?_of_leaf hleaf hm htext hname hw
  · rw [← hname]
    refine tabName?_descend hleaf hfault ?_ ?_
    · rintro rfl
      rw [not_and] at hat
      exact not_or.1 (hat rfl)
    · rintro hr rfl
      obtain ⟨k', r', rfl⟩ := List.exists_cons_of_ne_nil hr
      exact hspares.inside ⟨k, k', r', rfl⟩

/-- A write that spares a name leaves it in the collection, if the leaf does so in the list. -/
theorem mem_namesIn_write (hleaf : Writes leaf v) (hspares : c.SparesName n d q.keys v inserting)
    (hlast : ∀ k w, q.keys = c.keys ++ [k] → leaf k (.arr (c.itemsIn d)) = .ok w →
      ∃ ys, w = .arr ys ∧ n ∈ ys.filterMap tabName?)
    (h : (if q.isRoot then .done v else descend leaf q d q.keys) = Attempt.done e)
    (hn : n ∈ c.namesIn d) : n ∈ c.namesIn e := by
  obtain ⟨habove, hitems⟩ | ⟨k, r, hkeys, hbelow⟩ | ⟨-, hitems⟩ := c.itemsIn_write hleaf h
  · rw [namesIn, hitems]
    exact hspares.above habove
  · rcases hbelow with ⟨hnone, -⟩ | hbelow
    · rw [namesIn, hnone] at hn
      cases hn
    · cases r with
      | nil =>
        obtain ⟨w, hw, hdocument⟩ := descend_singleton (congrArg Attempt.fault hbelow)
        obtain ⟨ys, rfl, hys⟩ := hlast k w hkeys hw
        rw [hbelow] at hdocument
        obtain rfl := Value.arr.inj hdocument
        exact hys
      | cons m r =>
        rw [hkeys] at hspares
        exact mem_filterMap_of_descend hleaf hspares hbelow hn
  · rw [namesIn, hitems]
    exact hn

theorem mem_namesIn_add (hspares : c.SparesName n d q.keys v true) (h : add q v d = .done e)
    (hn : n ∈ c.namesIn d) : n ∈ c.namesIn e := by
  refine mem_namesIn_write (writes_insertInto q v) hspares (fun k w _ hw => ?_) h hn
  obtain ⟨-, i, hi, rfl⟩ := insertInto_arr hw
  exact ⟨_, rfl, mem_filterMap_insertIdx hn hi⟩

theorem mem_namesIn_replace (hspares : c.SparesName n d q.keys v false)
    (h : replace q v d = .done e) (hn : n ∈ c.namesIn d) : n ∈ c.namesIn e := by
  refine mem_namesIn_write (writes_overwriteIn q v) hspares (fun k w hkeys hw => ?_) h hn
  obtain ⟨i, hi, -, rfl⟩ := overwriteIn_arr hw
  refine ⟨_, rfl, mem_filterMap_set hn fun x hx hname => ?_⟩
  refine hspares.item rfl k hkeys ?_
  rw [hkeys, at?_item hi hx]
  exact hname

end Write

/-- A removal that spares a name: neither the collection with its items goes, nor an item of that
name, nor the name or the label of an item. -/
theorem mem_namesIn_eraseAt (ht : t ≠ []) (habove : ¬ t <+: c.keys)
    (hitem : ∀ k, t = c.keys ++ [k] → (d.at? t).bind tabName? ≠ some n)
    (hname : ¬ c.NameOfItem t) (hn : n ∈ c.namesIn d) : n ∈ c.namesIn (eraseAt d t) := by
  obtain ⟨h, -⟩ | ⟨k, r, rfl, hbelow⟩ | ⟨-, hitems⟩ := c.itemsIn_eraseAt d ht
  · exact absurd h habove
  · obtain hsame | ⟨i, x, hi, hx, ⟨rfl, hys⟩ | ⟨hr, hys⟩⟩ := eraseAt_item hbelow
    · rw [namesIn, hsame]
      exact hn
    · rw [namesIn, hys]
      refine mem_filterMap_eraseIdx hn fun x' hx' hxn => hitem k rfl ?_
      rw [at?_item hi hx']
      exact hxn
    · rw [namesIn, hys]
      refine mem_filterMap_set hn fun x' hx' hxn => ?_
      obtain rfl : x = x' := Option.some.inj (hx.symm.trans hx')
      obtain ⟨m, r, rfl⟩ := List.exists_cons_of_ne_nil hr
      rw [tabName?_eraseAt]
      · exact hxn
      · rintro rfl
        refine ⟨?_, ?_⟩ <;> rintro rfl
        · exact hname ⟨k, .inl rfl⟩
        · exact hname ⟨k, .inr rfl⟩
  · rw [namesIn, hitems]
    exact hn

/-! ## 5. Lengths -/

/-- A collection becomes longer only where it is written as a whole, or where a leaf in its list
makes it longer. -/
theorem lengthIn_write (hleaf : Writes leaf v)
    (hlast : ∀ k w, q.keys = c.keys ++ [k] → leaf k (.arr (c.itemsIn d)) = .ok w →
      ∃ ys, w = .arr ys ∧ ys.length ≤ c.lengthIn d)
    (h : (if q.isRoot then .done v else descend leaf q d q.keys) = Attempt.done e) :
    (q.keys <+: c.keys ∧ c.itemsIn e = c.itemsFrom q.keys v) ∨ c.lengthIn e ≤ c.lengthIn d := by
  unfold lengthIn at hlast ⊢
  obtain habove | ⟨k, r, hkeys, hbelow⟩ | ⟨-, hitems⟩ := c.itemsIn_write hleaf h
  · exact .inl habove
  · right
    rcases hbelow with ⟨-, hnone⟩ | hbelow
    · rw [hnone]
      exact Nat.zero_le _
    · cases r with
      | nil =>
        obtain ⟨w, hw, hdocument⟩ := descend_singleton (congrArg Attempt.fault hbelow)
        obtain ⟨ys, rfl, hys⟩ := hlast k w hkeys hw
        rw [hbelow] at hdocument
        obtain rfl := Value.arr.inj hdocument
        exact hys
      | cons m r =>
        obtain ⟨i, x, -, -, -, hdocument⟩ := descend_item (congrArg Attempt.fault hbelow)
        rw [hbelow] at hdocument
        exact Nat.le_of_eq (by rw [Value.arr.inj hdocument, List.length_set])
  · exact .inr (Nat.le_of_eq (by rw [hitems]))

theorem lengthIn_add (hnew : ∀ k, q.keys ≠ c.keys ++ [k]) (h : add q v d = .done e) :
    (q.keys <+: c.keys ∧ c.itemsIn e = c.itemsFrom q.keys v) ∨ c.lengthIn e ≤ c.lengthIn d :=
  lengthIn_write (writes_insertInto q v) (fun k _ hkeys _ => absurd hkeys (hnew k)) h

theorem lengthIn_replace (h : replace q v d = .done e) :
    (q.keys <+: c.keys ∧ c.itemsIn e = c.itemsFrom q.keys v) ∨ c.lengthIn e ≤ c.lengthIn d := by
  refine lengthIn_write (writes_overwriteIn q v) (fun k w _ hw => ?_) h
  obtain ⟨i, -, -, rfl⟩ := overwriteIn_arr hw
  exact ⟨_, rfl, Nat.le_of_eq List.length_set⟩

theorem lengthIn_eraseAt (ht : t ≠ []) : c.lengthIn (eraseAt d t) ≤ c.lengthIn d := by
  unfold lengthIn
  obtain ⟨-, hnone⟩ | ⟨k, r, rfl, hbelow⟩ | ⟨-, hitems⟩ := c.itemsIn_eraseAt d ht
  · rw [hnone]
    exact Nat.zero_le _
  · obtain hsame | ⟨i, x, -, -, ⟨-, hys⟩ | ⟨-, hys⟩⟩ := eraseAt_item hbelow
    · exact Nat.le_of_eq (by rw [hsame])
    · rw [hys]
      exact List.length_eraseIdx_le _ _
    · exact Nat.le_of_eq (by rw [hys, List.length_set])
  · exact Nat.le_of_eq (by rw [hitems])

/-! ## 6. Reordering -/

/-- To move an item to another place in its collection changes the order of the items alone. -/
theorem perm_itemsIn_of_move {a b : String} (hx : d.at? (c.keys ++ [a]) = some x)
    (h : add ⟨c.keys ++ [b]⟩ x (eraseAt d (c.keys ++ [a])) = .done e) :
    (c.itemsIn e).Perm (c.itemsIn d) := by
  have hkeys := c.memberKey_of_mem_keys
  rw [Value.at?_bind] at hx
  obtain ⟨w, hw, hwx⟩ := Option.bind_eq_some_iff.1 hx
  have herased := at?_eraseAt_of_below (d := d) (k := a) (r := []) hkeys
  rw [hw, Option.map_some] at herased
  have hroot : ¬ (⟨c.keys ++ [b]⟩ : Pointer).isRoot = true := fun hnil =>
    List.append_ne_nil_of_right_ne_nil _ (List.cons_ne_nil b []) (List.isEmpty_iff.1 hnil)
  unfold add at h
  rw [if_neg hroot] at h
  obtain ⟨y, hopened, hfault, hat⟩ := at?_descend_of_below (congrArg Attempt.fault h)
  rw [h] at hat
  change e.at? c.keys = _ at hat
  -- What is moved was taken out of a collection, and it goes back into the same one.
  cases w with
  | arr xs =>
    obtain ⟨i, hi, hxi⟩ := Value.exists_item_of_at? hwx
    rw [eraseAt, hi] at herased
    obtain rfl := hopened.eq herased rfl
    obtain ⟨z, hz, hdocument⟩ := descend_singleton hfault
    obtain ⟨-, j, hj, rfl⟩ := insertInto_arr hz
    rw [hdocument] at hat
    obtain ⟨hlt, rfl⟩ := List.getElem?_eq_some_iff.1 hxi
    rw [itemsIn_of_at? hw, itemsIn_of_at? hat]
    exact (List.perm_insertIdx _ _ hj).trans (List.getElem_cons_eraseIdx_perm hlt)
  | obj ms =>
    rw [eraseAt] at herased
    obtain rfl := hopened.eq herased rfl
    obtain ⟨ns, hns⟩ := document_descend_obj (writes_insertInto _ x) hfault
    have hnone : ∀ zs, e.at? c.keys ≠ some (.arr zs) := by
      intro zs hzs
      rw [hat, hns] at hzs
      cases hzs
    have hnone' : ∀ zs, d.at? c.keys ≠ some (.arr zs) := by
      intro zs hzs
      rw [hw] at hzs
      cases hzs
    rw [itemsIn_eq_nil hnone, itemsIn_eq_nil hnone']
  | _ => cases hwx

end Collection

end Dashboards
