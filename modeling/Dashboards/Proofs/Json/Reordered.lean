import Mathlib.Data.List.Perm.Basic
import Dashboards.Proofs.Json.Reader

/-!
# Trees up to the order of members

A member that is removed and added again stands behind the others.  Trees that differ in nothing
else than where the members of their objects stand are reorderings of one another.
-/

namespace Dashboards

namespace Members

variable {α : Type} {ms : Members α} {k l : String} {v w : α}

/-! ## 1. Entries that come and go -/

theorem set_of_get? (h : ms.get? k = some v) : ms.set k v = ms := by
  induction ms with
  | nil => cases h
  | cons e ms ih =>
    rw [get?] at h
    rw [set]
    split at h
    · rename_i hk
      cases h
      subst hk
      exact if_pos rfl
    · rename_i hk
      rw [if_neg hk, ih h]

@[simp] theorem set_set (ms : Members α) (k : String) (v w : α) :
    (ms.set k v).set k w = ms.set k w := by
  induction ms with
  | nil => simp [set]
  | cons e ms ih => by_cases hk : e.1 = k <;> simp [set, hk, ih]

theorem erase_of_get?_none (h : ms.get? k = none) : ms.erase k = ms := by
  induction ms with
  | nil => rfl
  | cons e ms ih =>
    rw [get?] at h
    rw [erase]
    split at h
    · cases h
    · rename_i hk
      rw [if_neg hk, ih h]

theorem erase_set_of_get?_none (h : ms.get? k = none) (v : α) : (ms.set k v).erase k = ms := by
  induction ms with
  | nil => simp [set, erase]
  | cons e ms ih =>
    rw [get?] at h
    split at h
    · cases h
    · rename_i hk
      rw [set, if_neg hk, erase, if_neg hk, ih h]

/-- An entry that is written after it was removed has moved to the end. -/
theorem perm_set_erase (hkeys : ms.keys.Nodup) (h : ms.get? k = some w) (v : α) :
    ((ms.erase k).set k v).Perm (ms.set k v) := by
  induction ms with
  | nil => cases h
  | cons e ms ih =>
    obtain ⟨hfirst, hrest⟩ := List.nodup_cons.1 hkeys
    rw [get?] at h
    by_cases hk : e.1 = k
    · -- There is no second entry under the key, so the others are what is left.
      subst hk
      have habsent : get? ms e.1 = none := by
        cases hget : get? ms e.1 with
        | none => rfl
        | some u => exact absurd (List.mem_map.2 ⟨_, mem_of_get? hget, rfl⟩) hfirst
      rw [erase, if_pos rfl, set, if_pos rfl, erase_of_get?_none habsent, set_of_not_mem hfirst]
      exact List.perm_append_singleton _ _
    · rw [if_neg hk] at h
      rw [erase, if_neg hk, set, if_neg hk, set, if_neg hk]
      exact (ih hrest h).cons e

/-- Writes the entry of a key, or removes it. -/
def put (ms : Members α) (k : String) : Option α → Members α
  | some v => ms.set k v
  | none => ms.erase k

theorem get?_put_of_ne (ms : Members α) (hne : l ≠ k) (o : Option α) :
    (ms.put k o).get? l = ms.get? l := by
  cases o with
  | none => exact get?_erase_of_ne ms hne
  | some v => exact get?_set_of_ne ms v hne

theorem put_get? (ms : Members α) (k : String) : ms.put k (ms.get? k) = ms := by
  cases h : ms.get? k with
  | none => exact erase_of_get?_none h
  | some v => exact set_of_get? h

theorem put_cons_some (e : String × α) (ms : Members α) (v : α) :
    put (e :: ms) e.1 (some v) = (e.1, v) :: ms := if_pos rfl

theorem put_cons_none (e : String × α) (ms : Members α) :
    put (e :: ms) e.1 none = ms.put e.1 none := if_pos rfl

theorem put_cons_of_ne {e : String × α} (hne : e.1 ≠ k) (ms : Members α) (o : Option α) :
    put (e :: ms) k o = e :: ms.put k o := by
  cases o <;> simp [put, set, erase, hne]

/-- Entries of different keys can be written in either order. -/
theorem perm_put_put (ms : Members α) (hne : k ≠ l) (a b : Option α) :
    ((ms.put k a).put l b).Perm ((ms.put l b).put k a) := by
  induction ms with
  | nil =>
    cases a <;> cases b <;> simp [put, set, erase, hne, hne.symm]
    exact List.Perm.swap _ _ _
  | cons e ms ih =>
    by_cases hk : e.1 = k
    · subst hk
      rw [put_cons_of_ne hne]
      cases a with
      | none => rwa [put_cons_none, put_cons_none]
      | some v => rw [put_cons_some, put_cons_some, put_cons_of_ne (e := (e.1, v)) hne]
    · by_cases hl : e.1 = l
      · subst hl
        rw [put_cons_of_ne hk]
        cases b with
        | none => rwa [put_cons_none, put_cons_none]
        | some v => rw [put_cons_some, put_cons_some, put_cons_of_ne (e := (e.1, v)) hk]
      · rw [put_cons_of_ne hk, put_cons_of_ne hl, put_cons_of_ne hl, put_cons_of_ne hk]
        exact ih.cons e

end Members

/-! ## 2. Reorderings -/

namespace Value

/-- The least relation that lets the members of any object in a tree change places. -/
inductive Reordered : Value → Value → Prop
  | refl (v : Value) : Reordered v v
  | trans {u v w : Value} (huv : Reordered u v) (hvw : Reordered v w) : Reordered u w
  | places {ms ns : Members Value} (h : ms.Perm ns) : Reordered (.obj ms) (.obj ns)
  | member (ms : Members Value) (k : String) {v w : Value} (ns : Members Value)
      (h : Reordered v w) : Reordered (.obj (ms ++ (k, v) :: ns)) (.obj (ms ++ (k, w) :: ns))
  | item (xs : List Value) {v w : Value} (ys : List Value) (h : Reordered v w) :
      Reordered (.arr (xs ++ v :: ys)) (.arr (xs ++ w :: ys))

namespace Reordered

variable {v w : Value}

theorem symm (h : Reordered v w) : Reordered w v := by
  induction h with
  | refl v => exact .refl v
  | trans _ _ ihuv ihvw => exact .trans ihvw ihuv
  | places h => exact .places h.symm
  | member ms k ns _ ih => exact .member ms k ns ih
  | item xs ys _ ih => exact .item xs ys ih

theorem set (h : Reordered v w) (ms : Members Value) (k : String) :
    Reordered (.obj (ms.set k v)) (.obj (ms.set k w)) := by
  -- The entry stands behind some first members, whatever is written into it.
  obtain ⟨front, back, hset⟩ : ∃ front back : Members Value,
      ∀ x, ms.set k x = front ++ (k, x) :: back := by
    induction ms with
    | nil => exact ⟨[], [], fun x => rfl⟩
    | cons e ms ih =>
      by_cases hk : e.1 = k
      · exact ⟨[], ms, fun x => by simp [Members.set, hk]⟩
      · obtain ⟨front, back, hset⟩ := ih
        exact ⟨e :: front, back, fun x => by simp [Members.set, hk, hset]⟩
  rw [hset, hset]
  exact .member front k back h

theorem setItem (h : Reordered v w) {xs : List Value} {i : Nat} (hi : i < xs.length) :
    Reordered (.arr (xs.set i v)) (.arr (xs.set i w)) := by
  rw [List.set_eq_take_append_cons_drop, List.set_eq_take_append_cons_drop, if_pos hi, if_pos hi]
  exact .item _ _ h

end Reordered

end Value

end Dashboards
