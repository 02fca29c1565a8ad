import Dashboards.Proofs.Document.Structure
import Dashboards.Proofs.Json.Equivalence
import Dashboards.Proofs.Pointer.Locations
import Dashboards.Proofs.Text.Cutting

/-!
# Numbers that are not finite and the paths to them

Every number of a tree has an address, the positions of the members and items on the way to it, and
addresses in lexicographic order are in document order.  The scan gives one path for each number that
is not finite, in the order of their addresses.  A path is the keys on the way with dots between them,
so it can be cut into the keys again where no key is empty or has a dot in it; and then the keys are a
pointer to the number.
-/

namespace Dashboards

namespace Value

/-! ## 1. Addresses -/

/-- The values that stand in a collection, in document order, each with the key that leads to it. -/
def parts : Value → Members Value
  | .arr xs => xs.zipIdx.map fun (x, i) => (toString i, x)
  | .obj ms => ms
  | _ => []

/-- The number stands in the tree at an address, which gives the position of the part that is taken at
every step; the keys are those of the parts. -/
inductive Holds (n : Number) : Value → List Nat → List String → Prop
  | here : Holds n (.num n) [] []
  | part {v x : Value} {i : Nat} {key : String} {address : List Nat} {keys : List String}
      (hpart : v.parts[i]? = some (key, x)) (h : Holds n x address keys) :
      Holds n v (i :: address) (key :: keys)

variable {v x : Value} {n k : Number} {i : Nat} {key path : String} {a b : List Nat}
  {keys : List String} {m : String × Value}

theorem getElem?_parts_arr_iff {xs : List Value} :
    (Value.arr xs).parts[i]? = some (key, x) ↔ key = toString i ∧ xs[i]? = some x := by
  rw [parts, List.getElem?_map, List.getElem?_zipIdx, Option.map_map, Nat.zero_add,
    Option.map_eq_some_iff]
  constructor
  · rintro ⟨y, hy, heq⟩
    obtain ⟨rfl, rfl⟩ := Prod.mk.inj heq
    exact ⟨rfl, hy⟩
  · rintro ⟨rfl, hx⟩
    exact ⟨x, hx, rfl⟩

theorem snd_mem_of_mem_parts {xs : List Value} (h : m ∈ (Value.arr xs).parts) : m.2 ∈ xs := by
  obtain ⟨⟨x, i⟩, hx, rfl⟩ := List.mem_map.1 h
  exact List.fst_mem_of_mem_zipIdx hx

/-- What is true of every number, and of every other value whose parts it is true of, is true of
every tree. -/
theorem parts_induction {motive : Value → Prop} (number : ∀ n, motive (.num n))
    (other : ∀ v : Value, (∀ n, v ≠ .num n) → (∀ m ∈ v.parts, motive m.2) → motive v) (v : Value) :
    motive v := by
  induction v using Value.induction with
  | scalar v hv =>
    cases v with
    | num n => exact number n
    | arr xs => cases hv
    | obj ms => cases hv
    | _ => exact other _ (fun _ h => nomatch h) fun m hm => nomatch hm
  | arr xs ih =>
    exact other _ (fun _ h => nomatch h) fun m hm => ih m.2 (snd_mem_of_mem_parts hm)
  | obj ms ih => exact other _ (fun _ h => nomatch h) ih

theorem holds_num_iff : Holds n (.num k) a keys ↔ n = k ∧ a = [] ∧ keys = [] := by
  constructor
  · intro h
    cases h with
    | here => exact ⟨rfl, rfl, rfl⟩
    | part hpart h => cases hpart
  · rintro ⟨rfl, rfl, rfl⟩
    exact .here

/-- A number at the root is the whole tree. -/
theorem Holds.eq_num (h : Holds n v a []) : v = .num n := by
  cases h
  rfl

/-! ## 2. The scan -/

/-- A number that is not finite, with its address in a tree and the keys on the way to it. -/
structure Stray where
  address : List Nat
  keys : List String
  number : Number

namespace Stray

/-- The stray of a part as one of the whole. -/
def under (i : Nat) (key : String) (s : Stray) : Stray := ⟨i :: s.address, key :: s.keys, s.number⟩

/-- The path of a stray in a tree that stands at a path itself. -/
def textFrom (path : String) (s : Stray) : String :=
  let text := s.keys.foldl dotted path
  if text = "" then "<root>" else text

/-- The path of a stray, which is never empty. -/
def text (s : Stray) : String := s.textFrom ""

end Stray

mutual

/-- The numbers of a tree that are not finite, in document order. -/
def strays : Value → List Stray
  | .num n => if n.isFinite then [] else [⟨[], [], n⟩]
  | .arr xs => straysOfItems 0 xs
  | .obj ms => straysOfMembers 0 ms
  | _ => []
termination_by structural v => v

def straysOfItems (position : Nat) : List Value → List Stray
  | [] => []
  | x :: xs =>
    (strays x).map (·.under position (toString position)) ++ straysOfItems (position + 1) xs
termination_by structural xs => xs

def straysOfMembers (position : Nat) : List (String × Value) → List Stray
  | [] => []
  | (k, v) :: rest => (strays v).map (·.under position k) ++ straysOfMembers (position + 1) rest
termination_by structural ms => ms

end

/-- Items are members whose keys are their numerals. -/
theorem straysOfItems_eq (position : Nat) (xs : List Value) :
    straysOfItems position xs =
      straysOfMembers position ((xs.zipIdx position).map fun (x, i) => (toString i, x)) := by
  induction xs generalizing position with
  | nil => rfl
  | cons x xs ih => rw [straysOfItems, ih, List.zipIdx_cons, List.map_cons, straysOfMembers]

theorem straysOfMembers_eq (position : Nat) (ms : Members Value) :
    straysOfMembers position ms =
      (ms.zipIdx position).flatMap fun (m, i) => m.2.strays.map (·.under i m.1) := by
  induction ms generalizing position with
  | nil => rfl
  | cons m ms ih => rw [straysOfMembers, ih, List.zipIdx_cons, List.flatMap_cons]

/-- The strays of a tree that is no number are those of its parts. -/
theorem strays_eq (hv : ∀ n, v ≠ .num n) :
    v.strays = v.parts.zipIdx.flatMap fun (m, i) => m.2.strays.map (·.under i m.1) := by
  rw [← straysOfMembers_eq]
  cases v with
  | num n => exact absurd rfl (hv n)
  | arr xs => rw [strays, straysOfItems_eq, parts]
  | obj ms => rw [strays, parts]
  | _ => rfl

theorem nonFiniteItems_eq (path : String) (position : Nat) (xs : List Value) :
    nonFiniteItems path position xs =
      nonFiniteMembers path ((xs.zipIdx position).map fun (x, i) => (toString i, x)) := by
  induction xs generalizing position with
  | nil => rfl
  | cons x xs ih => rw [nonFiniteItems, ih, List.zipIdx_cons, List.map_cons, nonFiniteMembers]

theorem nonFiniteMembers_eq (path : String) (ms : Members Value) :
    nonFiniteMembers path ms = ms.flatMap fun m => m.2.nonFinite (dotted path m.1) := by
  induction ms with
  | nil => rfl
  | cons m ms ih => rw [nonFiniteMembers, ih, List.flatMap_cons]

theorem nonFinite_eq (hv : ∀ n, v ≠ .num n) (path : String) :
    v.nonFinite path = v.parts.flatMap fun m => m.2.nonFinite (dotted path m.1) := by
  rw [← nonFiniteMembers_eq]
  cases v with
  | num n => exact absurd rfl (hv n)
  | arr xs => rw [nonFinite, nonFiniteItems_eq, parts]
  | obj ms => rw [nonFinite, parts]
  | _ => rfl

/-- The scan gives the paths of the strays. -/
theorem nonFinite_eq_map (v : Value) (path : String) :
    v.nonFinite path = v.strays.map (·.textFrom path) := by
  induction v using parts_induction generalizing path with
  | number n =>
    rw [nonFinite, strays]
    split <;> rfl
  | other v hv ih =>
    rw [strays_eq hv, List.map_flatMap]
    calc
      v.nonFinite path
        = (v.parts.zipIdx.map Prod.fst).flatMap fun m => m.2.nonFinite (dotted path m.1) := by
          rw [nonFinite_eq hv, List.zipIdx_map_fst]
      _ = v.parts.zipIdx.flatMap fun e => e.1.2.nonFinite (dotted path e.1.1) := List.flatMap_map ..
      _ = v.parts.zipIdx.flatMap fun e =>
            (e.1.2.strays.map (·.under e.2 e.1.1)).map (·.textFrom path) := by
          refine List.flatMap_congr fun e he => ?_
          rw [ih e.1 (List.fst_mem_of_mem_zipIdx he), List.map_map]
          rfl

theorem mem_strays_iff {s : Stray} :
    s ∈ v.strays ↔ Holds s.number v s.address s.keys ∧ s.number.isFinite = false := by
  induction v using parts_induction generalizing s with
  | number n =>
    obtain ⟨address, keys, k⟩ := s
    rw [strays, holds_num_iff]
    split
    · rename_i hn
      refine ⟨fun h => absurd h List.not_mem_nil, ?_⟩
      rintro ⟨⟨rfl, -, -⟩, hk⟩
      exact absurd (hk.symm.trans hn) Bool.false_ne_true
    · rename_i hn
      rw [List.mem_singleton, Stray.mk.injEq]
      constructor
      · rintro ⟨rfl, rfl, rfl⟩
        exact ⟨⟨rfl, rfl, rfl⟩, Bool.eq_false_of_not_eq_true hn⟩
      · rintro ⟨⟨rfl, rfl, rfl⟩, -⟩
        exact ⟨rfl, rfl, rfl⟩
  | other v hv ih =>
    rw [strays_eq hv, List.mem_flatMap]
    constructor
    · rintro ⟨⟨m, i⟩, hm, hs⟩
      obtain ⟨t, ht, rfl⟩ := List.mem_map.1 hs
      have hpart := List.mk_mem_zipIdx_iff_getElem?.1 hm
      obtain ⟨hholds, hfinite⟩ := (ih m (List.mem_of_getElem? hpart)).1 ht
      exact ⟨.part hpart hholds, hfinite⟩
    · rintro ⟨hholds, hfinite⟩
      obtain ⟨address, keys, n⟩ := s
      cases hholds with
      | here => exact absurd rfl (hv n)
      | @part _ x i key address keys hpart hholds =>
        refine ⟨((key, x), i), List.mk_mem_zipIdx_iff_getElem?.2 hpart, ?_⟩
        exact List.mem_map.2 ⟨⟨address, keys, n⟩,
          (ih _ (List.mem_of_getElem? hpart)).2 ⟨hholds, hfinite⟩, rfl⟩

/-- The strays are listed in the order of their addresses. -/
theorem pairwise_strays (v : Value) : v.strays.Pairwise fun s t => s.address < t.address := by
  induction v using parts_induction with
  | number n =>
    rw [strays]
    split
    · exact .nil
    · exact List.pairwise_singleton _ _
  | other v hv ih =>
    have hpositions : v.parts.zipIdx.Pairwise fun e f => e.2 < f.2 := by
      rw [← List.pairwise_map, List.zipIdx_map_snd]
      exact List.pairwise_lt_range'
    rw [strays_eq hv, List.pairwise_flatMap]
    refine ⟨fun e he => ?_, hpositions.imp fun hlt s hs t ht => ?_⟩
    · rw [List.pairwise_map]
      refine (ih e.1 (List.fst_mem_of_mem_zipIdx he)).imp fun hlt => ?_
      exact List.cons_lt_cons_iff.2 (.inr ⟨rfl, hlt⟩)
    · obtain ⟨s, -, rfl⟩ := List.mem_map.1 hs
      obtain ⟨t, -, rfl⟩ := List.mem_map.1 ht
      exact List.cons_lt_cons_iff.2 (.inl hlt)

/-! ## 3. Paths and their keys -/

/-- A key that a path can be cut at: it is not empty and has no dot in it. -/
def Undotted (key : String) : Prop := key ≠ "" ∧ '.' ∉ key.toList

theorem undotted_toString (i : Nat) : Undotted (toString i) := by
  rw [Undotted, ne_eq, ← String.toList_eq_nil_iff, toList_numeral]
  refine ⟨Nat.toDigits_ne_nil, fun hdot => ?_⟩
  cases Nat.isDigit_of_mem_toDigits (by decide) (by decide) hdot

theorem toList_dotted (hpath : path ≠ "") (key : String) :
    (dotted path key).toList = path.toList ++ '.' :: key.toList := by
  rw [dotted, if_neg hpath, String.toList_append, String.toList_append, List.append_assoc]
  rfl

theorem dotted_ne_empty (hpath : path ≠ "") (key : String) : dotted path key ≠ "" := by
  rw [ne_eq, ← String.toList_eq_nil_iff, toList_dotted hpath]
  exact List.append_ne_nil_of_right_ne_nil _ (List.cons_ne_nil _ _)

theorem intercalate_append_dot (first second : List Char) (rest : List (List Char)) :
    ['.'].intercalate ((first ++ '.' :: second) :: rest) =
      ['.'].intercalate (first :: second :: rest) := by
  cases rest with
  | nil => simp
  | cons next rest => simp [List.intercalate_cons_cons]

theorem foldl_dotted_ne_empty (hpath : path ≠ "") (keys : List String) :
    keys.foldl dotted path ≠ "" := by
  induction keys generalizing path with
  | nil => exact hpath
  | cons key keys ih => exact ih (dotted_ne_empty hpath key)

/-- Keys that are put behind a path have dots between them. -/
theorem toList_foldl_dotted (hpath : path ≠ "") (keys : List String) :
    (keys.foldl dotted path).toList = ['.'].intercalate ((path :: keys).map String.toList) := by
  induction keys generalizing path with
  | nil => simp
  | cons key keys ih =>
    rw [List.foldl_cons, ih (dotted_ne_empty hpath key), List.map_cons, toList_dotted hpath,
      intercalate_append_dot, List.map_cons, List.map_cons]

/-- The path to a number that is not the root is the keys with dots between them. -/
theorem foldl_dotted_eq (hne : keys ≠ []) (hkeys : ∀ key ∈ keys, Undotted key) :
    keys.foldl dotted "" = .ofList (['.'].intercalate (keys.map String.toList)) := by
  cases keys with
  | nil => exact absurd rfl hne
  | cons key keys =>
    have hkey := (hkeys key List.mem_cons_self).1
    rw [List.foldl_cons, dotted, if_pos rfl, ← toList_foldl_dotted hkey, String.ofList_toList]

/-- A path is cut into the keys that it was put together from. -/
theorem splitOn_foldl_dotted (hne : keys ≠ []) (hkeys : ∀ key ∈ keys, Undotted key) :
    (keys.foldl dotted "").splitOn "." = keys := by
  rw [foldl_dotted_eq hne hkeys]
  exact Text.splitOn_joined hne fun key hkey => (hkeys key hkey).2

/-! ## 4. Pointers to the numbers -/

/-- No object in the tree has a key that is empty or has a dot in it. -/
def UndottedKeys (v : Value) : Prop :=
  ∀ ms : Members Value, Part (.obj ms) v → ∀ m ∈ ms, Undotted m.1

variable {fine : Number → Prop}

theorem Part.of_mem_parts (h : Part x m.2) (hm : m ∈ v.parts) : Part x v := by
  cases v with
  | arr xs => exact .item (snd_mem_of_mem_parts hm) h
  | obj ms => exact .member hm h
  | _ => cases hm

theorem UndottedKeys.of_mem_parts (h : v.UndottedKeys) (hm : m ∈ v.parts) :
    Undotted m.1 ∧ m.2.UndottedKeys := by
  refine ⟨?_, fun ms hms => h ms (hms.of_mem_parts hm)⟩
  cases v with
  | arr xs =>
    obtain ⟨⟨x, i⟩, -, rfl⟩ := List.mem_map.1 hm
    exact undotted_toString i
  | obj ms => exact h ms .here m hm
  | _ => cases hm

theorem undottedKeys_arr_iff {xs : List Value} :
    (Value.arr xs).UndottedKeys ↔ ∀ x ∈ xs, x.UndottedKeys := by
  constructor
  · exact fun h x hx ms hms => h ms (.item hx hms)
  · intro h ms hms
    cases hms with
    | item hx hms => exact h _ hx ms hms

theorem undottedKeys_obj_iff {ms : Members Value} :
    (Value.obj ms).UndottedKeys ↔ ∀ m ∈ ms, Undotted m.1 ∧ m.2.UndottedKeys := by
  constructor
  · exact fun h m hm => ⟨h ms .here m hm, fun ns hns => h ns (.member hm hns)⟩
  · intro h ns hns
    cases hns with
    | here => exact fun m hm => (h m hm).1
    | member hm hns => exact (h _ hm).2 ns hns

theorem undottedKeys_of_scalar (h : v.isCollection = false) : v.UndottedKeys := by
  intro ms hms
  cases hms <;> cases h

theorem Orderly.of_mem_parts (h : v.Orderly fine) (hm : m ∈ v.parts) : m.2.Orderly fine := by
  cases v with
  | arr xs => exact orderly_arr_iff.1 h _ (snd_mem_of_mem_parts hm)
  | obj ms => exact (orderly_obj_iff.1 h).2 m hm
  | _ => cases hm

/-- The parts of an orderly tree have different keys. -/
theorem Orderly.nodup_keys_parts (h : v.Orderly fine) : v.parts.keys.Nodup := by
  cases v with
  | arr xs =>
    have hkeys : (Value.arr xs).parts.keys = (List.range' 0 xs.length).map toString := by
      rw [parts, Members.keys, ← List.zipIdx_map_snd, List.map_map, List.map_map]
      rfl
    rw [hkeys]
    exact List.Nodup.map (fun i j heq =>
      Option.some.inj ((indexOf?_toString i).symm.trans (heq ▸ indexOf?_toString j)))
      List.nodup_range'
  | obj ms => exact (orderly_obj_iff.1 h).1
  | _ => exact List.nodup_nil

theorem at?_part (hv : v.Orderly fine) (hpart : v.parts[i]? = some (key, x)) (keys : List String) :
    v.at? (key :: keys) = x.at? keys := by
  cases v with
  | arr xs =>
    obtain ⟨rfl, hx⟩ := getElem?_parts_arr_iff.1 hpart
    exact at?_item (indexOf?_toString i) hx
  | obj ms =>
    have hget := Members.get?_of_mem (orderly_obj_iff.1 hv).1 (List.mem_of_getElem? hpart)
    rw [at?_obj, hget, Option.bind_some]
  | _ => cases hpart

/-- The keys to a number in an orderly tree are a pointer to it. -/
theorem Holds.at? (h : Holds n v a keys) (hv : v.Orderly fine) : v.at? keys = some (.num n) := by
  induction h with
  | here => rfl
  | part hpart _ ih =>
    rw [at?_part hv hpart, ih (hv.of_mem_parts (List.mem_of_getElem? hpart))]

/-- In an orderly tree the keys tell the address. -/
theorem Holds.address_eq (h : Holds n v a keys) (h' : Holds k v b keys) (hv : v.Orderly fine) :
    a = b := by
  induction h generalizing b with
  | here =>
    cases h'
    rfl
  | @part v x i key a keys hpart _ ih =>
    cases h' with
    | @part _ y j _ b _ hpart' h' =>
      have hkey : ∀ {j : Nat} {y : Value}, v.parts[j]? = some (key, y) →
          v.parts.keys[j]? = some key := by
        intro j y hy
        rw [Members.keys, List.getElem?_map, hy]
        rfl
      obtain ⟨hlt, -⟩ := List.getElem?_eq_some_iff.1 (hkey hpart)
      obtain rfl : i = j := (List.getElem?_inj hlt hv.nodup_keys_parts).1
        ((hkey hpart).trans (hkey hpart').symm)
      obtain rfl : x = y := (Prod.mk.inj (Option.some.inj (hpart.symm.trans hpart'))).2
      rw [ih h' (hv.of_mem_parts (List.mem_of_getElem? hpart))]

theorem Holds.undotted (h : Holds n v a keys) (hv : v.UndottedKeys) : ∀ key ∈ keys, Undotted key := by
  induction h with
  | here => exact fun key hkey => nomatch hkey
  | part hpart _ ih =>
    obtain ⟨hkey, hrest⟩ := hv.of_mem_parts (List.mem_of_getElem? hpart)
    exact List.forall_mem_cons.2 ⟨hkey, ih hrest⟩

/-- No array in the tree has more items than there are indices that can be read. -/
def Indexable (v : Value) : Prop :=
  ∀ xs : List Value, Part (.arr xs) v → xs.length ≤ 10 ^ Excess.digitLimit

theorem Indexable.of_mem_parts (h : v.Indexable) (hm : m ∈ v.parts) : m.2.Indexable :=
  fun xs hxs => h xs (hxs.of_mem_parts hm)

theorem overlongIndex?_toString (hi : i < 10 ^ Excess.digitLimit) :
    overlongIndex? (toString i) = none := by
  rw [overlongIndex?_eq_none_iff (.inl rfl), ← String.length_toList, toList_numeral,
    Nat.length_toDigits_le_iff (by decide) (by decide)]
  exact hi

theorem overlongAt?_part (hv : v.Orderly fine) (hindex : v.Indexable)
    (hpart : v.parts[i]? = some (key, x)) (keys : List String) :
    v.overlongAt? (key :: keys) = x.overlongAt? keys := by
  cases v with
  | arr xs =>
    obtain ⟨rfl, hx⟩ := getElem?_parts_arr_iff.1 hpart
    obtain ⟨hlt, -⟩ := List.getElem?_eq_some_iff.1 hx
    have hlong := overlongIndex?_toString (Nat.lt_of_lt_of_le hlt (hindex xs .here))
    rw [overlongAt?, hlong, indexOf?_toString]
    dsimp only
    rw [Option.bind_some, hx, Option.bind_some]
  | obj ms =>
    have hget := Members.get?_of_mem (orderly_obj_iff.1 hv).1 (List.mem_of_getElem? hpart)
    rw [overlongAt?, hget, Option.bind_some]
  | _ => cases hpart

theorem Holds.overlongAt? (h : Holds n v a keys) (hv : v.Orderly fine) (hindex : v.Indexable) :
    v.overlongAt? keys = none := by
  induction h with
  | here => rfl
  | part hpart _ ih =>
    have hm := List.mem_of_getElem? hpart
    rw [overlongAt?_part hv hindex hpart, ih (hv.of_mem_parts hm) (hindex.of_mem_parts hm)]

/-- The path of a stray in a collection is cut at its dots into the keys on the way to it. -/
theorem Holds.splitOn_text {s : Stray} (h : Holds s.number v s.address s.keys)
    (hv : ∀ n, v ≠ .num n) (hkeys : v.UndottedKeys) : s.text.splitOn "." = s.keys := by
  have hundotted := h.undotted hkeys
  have hne : s.keys ≠ [] := fun hnil => hv _ (hnil ▸ h).eq_num
  have htext : s.keys.foldl dotted "" ≠ "" := by
    obtain ⟨key, keys, hcons⟩ := List.exists_cons_of_ne_nil hne
    rw [hcons] at hundotted ⊢
    exact foldl_dotted_ne_empty (hundotted key List.mem_cons_self).1 keys
  rw [Stray.text, Stray.textFrom, if_neg htext, splitOn_foldl_dotted hne hundotted]

/-- Paths of different strays are different. -/
theorem nodup_nonFinite (hv : v.Orderly fine) (hkeys : v.UndottedKeys) :
    (v.nonFinite "").Nodup := by
  by_cases hnum : ∃ n, v = .num n
  · obtain ⟨n, rfl⟩ := hnum
    rw [nonFinite]
    split
    · exact List.nodup_nil
    · exact List.nodup_singleton _
  · have hcollection : ∀ n, v ≠ .num n := not_exists.1 hnum
    rw [nonFinite_eq_map, List.Nodup, List.pairwise_map]
    refine (pairwise_strays v).imp_of_mem fun {s t} hs ht hlt htext => ?_
    have hs := (mem_strays_iff.1 hs).1
    have ht := (mem_strays_iff.1 ht).1
    -- One path has one list of keys, which has one address.
    have hsame : s.keys = t.keys := by
      rw [← hs.splitOn_text hcollection hkeys, ← ht.splitOn_text hcollection hkeys]
      exact congrArg (·.splitOn ".") htext
    rw [hs.address_eq (hsame ▸ ht) hv] at hlt
    exact List.lt_irrefl _ hlt

/-- How a path leads to a stray: the path is `<root>` if the stray is the whole tree, and else it is cut
at its dots into a pointer to the stray, which can be read if its indices have not too many digits. -/
def Stray.PointedAtIn (v : Value) (s : Stray) : Prop :=
  (v = .num s.number ∧ s.text = "<root>") ∨
    ((∀ n, v ≠ .num n) ∧ v.resolve? ⟨s.text.splitOn "."⟩ = some (.num s.number) ∧
      (v.Indexable → Patch.valueAt ⟨s.text.splitOn "."⟩ v = .ok (some (.num s.number))))

theorem Holds.pointedAtIn {s : Stray} (h : Holds s.number v s.address s.keys)
    (hv : v.Orderly fine) (hkeys : v.UndottedKeys) : s.PointedAtIn v := by
  by_cases hnum : ∃ n, v = .num n
  · obtain ⟨n, rfl⟩ := hnum
    obtain ⟨hn, -, hnil⟩ := holds_num_iff.1 h
    refine .inl ⟨by rw [hn], ?_⟩
    rw [Stray.text, Stray.textFrom, hnil]
    rfl
  · have hcollection : ∀ n, v ≠ .num n := not_exists.1 hnum
    have hfound := h.at? hv
    refine .inr ⟨hcollection, ?_, fun hindex => Patch.valueAt_eq_ok_iff.2 ⟨?_, ?_⟩⟩ <;>
      rw [h.splitOn_text hcollection hkeys]
    · exact hfound
    · exact h.overlongAt? hv hindex
    · exact hfound

/-- The scan of a tree gives the paths of the numbers that are not finite: one for each place of such a
number, in document order, and so none exactly if every number is finite.  In a tree where each object
has each of its keys once, and no key is empty or has a dot in it, the paths are different from each
other and lead to these numbers. -/
theorem nonFinite_lists_strays (v : Value) :
    ∃ found : List Stray,
      v.nonFinite "" = found.map Stray.text ∧
      found.Pairwise (fun s t => s.address < t.address) ∧
      (∀ s, s ∈ found ↔ Holds s.number v s.address s.keys ∧ s.number.isFinite = false) ∧
      (v.nonFinite "" = [] ↔ ∀ n, HasNumber n v → n.isFinite = true) ∧
      (v.Orderly (fun _ => True) → v.UndottedKeys →
        (v.nonFinite "").Nodup ∧ ∀ s ∈ found, s.PointedAtIn v) :=
  ⟨v.strays, nonFinite_eq_map v "", pairwise_strays v, fun _ => mem_strays_iff,
    nonFinite_eq_nil_iff "", fun hv hkeys =>
      ⟨nodup_nonFinite hv hkeys, fun _ hs => (mem_strays_iff.1 hs).1.pointedAtIn hv hkeys⟩⟩

/-- A goal that is infinite and a target that is no number at all, between values that are fine. -/
theorem nonFinite_lists_strays_of_goals :
    let v : Value := .obj [("kpis", .arr [.obj [("key", .str "cpl"), ("target", .num (.undefined 1))]]),
      ("goals", .obj [("leads", .ofFloat (1.0 / 0.0)), ("open", .bool true), ("sales", .ofInt 3)])]
    let target : Stray := ⟨[0, 0, 1], ["kpis", "0", "target"], .undefined 1⟩
    v.Orderly (fun _ => True) ∧ v.UndottedKeys ∧
      v.nonFinite "" = ["kpis.0.target", "goals.leads"] ∧ (v.nonFinite "").Nodup ∧
      target.PointedAtIn v := by
  intro v target
  have hv : v.Orderly fun _ => True := by
    simp [v, Orderly, OrderlyItems, OrderlyMembers, Members.keys, ofFloat, ofInt]
  have hkeys : v.UndottedKeys := by
    simp (disch := decide) [v, undottedKeys_obj_iff, undottedKeys_arr_iff, undottedKeys_of_scalar,
      Undotted]
  obtain ⟨found, -, -, hfound, -, hpaths⟩ := nonFinite_lists_strays v
  obtain ⟨hnodup, hpointed⟩ := hpaths hv hkeys
  have htarget : Holds target.number v target.address target.keys :=
    .part rfl (.part rfl (.part rfl .here))
  exact ⟨hv, hkeys, by decide, hnodup, hpointed target ((hfound target).2 ⟨htarget, rfl⟩)⟩

end Value

end Dashboards
