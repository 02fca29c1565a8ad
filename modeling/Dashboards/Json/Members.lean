/-!
# Members in order of arrival

The members of an object, and every other table with text keys, keep the order in which their keys
first arrived: writing to a key that is present keeps its place, and a new key goes to the end.
-/

namespace Dashboards

/-- Entries with text keys, in order of arrival. -/
abbrev Members (α : Type) := List (String × α)

namespace Members

variable {α β : Type}

def get? : Members α → String → Option α
  | [], _ => none
  | (k, v) :: rest, key => if k = key then some v else get? rest key

def contains (ms : Members α) (key : String) : Bool := (ms.get? key).isSome

def keys (ms : Members α) : List String := ms.map (·.1)

/-- Writes `v` under `key`, in place when the key is present and at the end otherwise. -/
def set : Members α → String → α → Members α
  | [], key, v => [(key, v)]
  | (k, w) :: rest, key, v => if k = key then (k, v) :: rest else (k, w) :: set rest key v

/-- Removes the entry under `key`, if there is one. -/
def erase : Members α → String → Members α
  | [], _ => []
  | (k, w) :: rest, key => if k = key then erase rest key else (k, w) :: erase rest key

/-- The table read from entries in order, a later entry replacing an earlier one in its place. -/
def ofEntries (entries : List (String × α)) : Members α :=
  entries.foldl (fun ms e => ms.set e.1 e.2) []

def mapValues (f : α → β) (ms : Members α) : Members β := ms.map fun (k, v) => (k, f v)

/-- The entries of `ms` replaced and extended by those of `more`. -/
def overlay (ms more : Members α) : Members α := more.foldl (fun acc e => acc.set e.1 e.2) ms

@[simp] theorem get?_set_self (ms : Members α) (key : String) (v : α) :
    (ms.set key v).get? key = some v := by
  induction ms with
  | nil => simp [set, get?]
  | cons e rest ih => by_cases h : e.1 = key <;> simp [set, get?, h, ih]

theorem get?_set_of_ne (ms : Members α) {key other : String} (v : α) (h : other ≠ key) :
    (ms.set key v).get? other = ms.get? other := by
  induction ms with
  | nil => simp [set, get?, h.symm]
  | cons e rest ih =>
    by_cases hk : e.1 = key
    · have : e.1 ≠ other := by rw [hk]; exact h.symm
      simp [set, get?, hk, h.symm]
    · simp [set, get?, hk, ih]

@[simp] theorem get?_erase_self (ms : Members α) (key : String) :
    (ms.erase key).get? key = none := by
  induction ms with
  | nil => rfl
  | cons e rest ih => by_cases h : e.1 = key <;> simp [erase, get?, h, ih]

theorem get?_erase_of_ne (ms : Members α) {key other : String} (h : other ≠ key) :
    (ms.erase key).get? other = ms.get? other := by
  induction ms with
  | nil => rfl
  | cons e rest ih =>
    by_cases hk : e.1 = key
    · have : e.1 ≠ other := by rw [hk]; exact h.symm
      simp [erase, get?, hk, h.symm, ih]
    · simp [erase, get?, hk, ih]

theorem get?_mapValues (f : α → β) (ms : Members α) (key : String) :
    (ms.mapValues f).get? key = (ms.get? key).map f := by
  induction ms with
  | nil => rfl
  | cons e rest ih =>
    by_cases h : e.1 = key
    · simp [mapValues, get?, h]
    · simpa [mapValues, get?, h] using ih

end Members

end Dashboards
