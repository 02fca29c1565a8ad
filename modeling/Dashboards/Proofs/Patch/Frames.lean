import Dashboards.Proofs.Json.Reordered
import Dashboards.Proofs.Patch.Additions

/-!
# Documents with a hole

What an operation does at a place depends on the collection there alone.  The document around the
collection is a frame with a hole at the place: whatever is put into it is found there, and writes
and removals below the place are writes and removals in what was put in.
-/

namespace Dashboards

namespace Value

/-- A document with a hole at the end of the keys, as a function of what is put into the hole. -/
inductive Frame : List String → (Value → Value) → Prop
  | here : Frame [] fun x => x
  | member (ms : Members Value) (k : String) {s : List String} {f : Value → Value}
      (h : Frame s f) : Frame (k :: s) fun x => .obj (ms.set k (f x))
  | item {xs : List Value} {k : String} {i : Nat} (hi : indexOf? k = some i)
      (hlong : overlongIndex? k = none) (hlt : i < xs.length) {s : List String}
      {f : Value → Value} (h : Frame s f) : Frame (k :: s) fun x => .arr (xs.set i (f x))

variable {d c x y : Value} {f : Value → Value} {k : String} {s t r : List String}

/-- The document around a value on a way on which no overlong index is met. -/
theorem exists_frame (hs : d.at? s = some c) (hlong : d.overlongAt? (s ++ t) = none) :
    ∃ f, Frame s f ∧ d = f c := by
  induction s generalizing d with
  | nil => exact ⟨_, .here, Option.some.inj hs⟩
  | cons k s ih =>
    cases d with
    | obj ms =>
      obtain ⟨e, he, hs⟩ := Option.bind_eq_some_iff.1 hs
      change (Members.get? ms k).bind _ = none at hlong
      rw [he] at hlong
      obtain ⟨f, hf, rfl⟩ := ih hs hlong
      exact ⟨_, .member ms k hf, by rw [Members.set_of_get? he]⟩
    | arr xs =>
      obtain ⟨e, he, hs⟩ := Option.bind_eq_some_iff.1 hs
      obtain ⟨i, hi, hx⟩ := Option.bind_eq_some_iff.1 he
      rw [List.cons_append, overlongAt?] at hlong
      cases hk : overlongIndex? k with
      | some digits => rw [hk] at hlong; cases hlong
      | none =>
        rw [hk, he] at hlong
        obtain ⟨f, hf, rfl⟩ := ih hs hlong
        obtain ⟨hlt, hget⟩ := List.getElem?_eq_some_iff.1 hx
        exact ⟨_, .item hi hk hlt hf, by rw [← hget, List.set_getElem_self]⟩
    | _ => cases hs

namespace Frame

theorem at?_append (h : Frame s f) (x : Value) (t : List String) :
    (f x).at? (s ++ t) = x.at? t := by
  induction h with
  | here => rfl
  | member ms k h ih => rw [List.cons_append, at?_obj, Members.get?_set_self, Option.bind_some, ih]
  | item hi hlong hlt h ih =>
    rw [List.cons_append, at?_item hi (List.getElem?_set_self hlt), ih]

theorem overlongAt?_append (h : Frame s f) (x : Value) (t : List String) :
    (f x).overlongAt? (s ++ t) = x.overlongAt? t := by
  induction h with
  | here => rfl
  | member ms k h ih =>
    rw [List.cons_append, overlongAt?, Members.get?_set_self, Option.bind_some, ih]
  | item hi hlong hlt h ih =>
    rw [List.cons_append, overlongAt?, hlong, hi]
    dsimp only
    rw [Option.bind_some, List.getElem?_set_self hlt, Option.bind_some, ih]

theorem isCollection (h : Frame s f) (hx : x.isCollection = true) :
    (f x).isCollection = true := by
  cases h with
  | here => exact hx
  | member => rfl
  | item => rfl

/-- Members that change places in the hole change places in the document. -/
theorem reordered (h : Frame s f) (hxy : Reordered x y) : Reordered (f x) (f y) := by
  induction h with
  | here => exact hxy
  | member ms k h ih => exact ih.set ms k
  | item hi hlong hlt h ih => exact ih.setItem hlt

end Frame

end Value

namespace Patch

open Value (Frame)

variable {leaf : String → Value → Except Fault Value} {p : Pointer} {c d : Value}
  {f : Value → Value} {k : String} {s r : List String}

/-- Keys that go on are not at their end, so a walk along them takes another step. -/
theorem exists_cons_append (s : List String) (k : String) (r : List String) :
    ∃ next rest, s ++ k :: r = next :: rest :=
  List.exists_cons_of_ne_nil (List.append_ne_nil_of_right_ne_nil s (List.cons_ne_nil k r))

theorem isRoot_of_keys (hp : p.keys = s ++ k :: r) : p.isRoot = false := by
  obtain ⟨next, rest, hkeys⟩ := exists_cons_append s k r
  rw [Pointer.isRoot, hp, hkeys, List.isEmpty_cons]

theorem valueAt_eq_ok_iff {found : Option Value} :
    valueAt p d = .ok found ↔ d.overlongAt? p.keys = none ∧ d.resolve? p = found := by
  unfold valueAt
  cases d.overlongAt? p.keys <;> simp

theorem exists_frame_of_valueAt (h : valueAt p d = .ok (some c)) :
    ∃ f, Frame p.keys f ∧ d = f c := by
  obtain ⟨hlong, hfound⟩ := valueAt_eq_ok_iff.1 h
  exact Value.exists_frame (t := []) hfound (by rwa [List.append_nil])

theorem eraseAt_frame (h : Frame s f) (c : Value) (k : String) (r : List String) :
    eraseAt (f c) (s ++ k :: r) = f (eraseAt c (k :: r)) := by
  -- In each layer of the frame the walk finds the layer below, which it writes back in its place.
  induction h with
  | here => rfl
  | @member ms key s f h ih =>
    obtain ⟨next, rest, hkeys⟩ := exists_cons_append s k r
    rw [List.cons_append, hkeys, eraseAt_obj, Members.get?_set_self, ← hkeys]
    dsimp only
    rw [ih, Members.set_set]
  | @item xs key i hi hlong hlt s f h ih =>
    obtain ⟨next, rest, hkeys⟩ := exists_cons_append s k r
    rw [List.cons_append, hkeys, eraseAt, hi, Option.bind_some, List.getElem?_set_self hlt, ← hkeys]
    dsimp only [Option.map_some]
    rw [ih, List.set_set]

theorem indexIn_of_index {i : Nat} (hi : indexOf? k = some i) (hlong : overlongIndex? k = none) :
    indexIn p k = .ok i := by
  rw [indexIn, hi, hlong]

theorem entryFor_of_isCollection {ms : Members Value} {key next : String}
    (hget : ms.get? key = some c) (hc : c.isCollection = true) : entryFor ms key next = .ok c := by
  rw [entryFor, hget]
  cases c <;> first | rfl | cases hc

/-- A walk to a collection in the hole goes on there; nothing is created on the way. -/
theorem descend_frame (h : Frame s f) (hc : c.isCollection = true) (k : String)
    (r : List String) :
    descend leaf p (f c) (s ++ k :: r) =
      ⟨f (descend leaf p c (k :: r)).document, (descend leaf p c (k :: r)).fault⟩ := by
  -- Every layer is a collection, the hole included, so the walk replaces nothing on its way.
  induction h with
  | here => rfl
  | @member ms key s f h ih =>
    obtain ⟨next, rest, hkeys⟩ := exists_cons_append s k r
    rw [List.cons_append, hkeys, descend_obj,
      entryFor_of_isCollection (Members.get?_set_self _ _ _) (h.isCollection hc), ← hkeys]
    dsimp only
    rw [ih, Members.set_set]
  | @item xs key i hi hlong hlt s f h ih =>
    obtain ⟨next, rest, hkeys⟩ := exists_cons_append s k r
    rw [List.cons_append, hkeys, descend_arr, indexIn_of_index hi hlong, ← hkeys]
    dsimp only
    rw [List.getElem?_set_self hlt]
    dsimp only
    rw [ih, List.set_set]

end Patch

end Dashboards
