import Dashboards.Proofs.Json.Equality
import Dashboards.Proofs.Pointer

/-!
# How much stricter the equality of patch tests is

Trees that are equal are equal at every place.  The equality of patch tests tells booleans from
numbers and the one of blocked sections does not, and apart from NaNs that is all there is between
them: loosely equal trees are equal if and only if the booleans in them are at the same places.
-/

namespace Dashboards

namespace Value

variable {scalar : Value → Value → Bool} {v w x y : Value} {keys : List String}

/-! ## 1. Equal trees at their places -/

/-- Two trees that are alike are alike wherever the first has a value. -/
theorem alike_at? (h : alike scalar v w = true) (hx : v.at? keys = some x) :
    ∃ y, w.at? keys = some y ∧ alike scalar x y = true := by
  induction keys generalizing v w with
  | nil =>
    obtain rfl : v = x := by simpa [at?] using hx
    exact ⟨w, by simp [at?], h⟩
  | cons k ks ih =>
    cases v with
    | obj ms =>
      cases w with
      | obj ns =>
        obtain ⟨u, hu, hx⟩ := Option.bind_eq_some_iff.1 hx
        rw [alike, Bool.and_eq_true, alikeMembers_iff] at h
        obtain ⟨u', hu', halike⟩ := h.2 _ (Members.mem_of_get? hu)
        obtain ⟨y, hy, hxy⟩ := ih halike hx
        exact ⟨y, Option.bind_eq_some_iff.2 ⟨u', hu', hy⟩, hxy⟩
      | _ => cases h
    | arr xs =>
      cases w with
      | arr ys =>
        obtain ⟨u, hu, hx⟩ := Option.bind_eq_some_iff.1 hx
        obtain ⟨i, hi, hxi⟩ := Option.bind_eq_some_iff.1 hu
        rw [alike, alikeItems_iff, List.forall₂_iff_get] at h
        obtain ⟨hlt, hget⟩ := List.getElem?_eq_some_iff.1 hxi
        have halike := h.2 i hlt (h.1 ▸ hlt)
        rw [List.get_eq_getElem, hget] at halike
        obtain ⟨y, hy, hxy⟩ := ih halike hx
        refine ⟨y, ?_, hxy⟩
        refine Option.bind_eq_some_iff.2 ⟨_, Option.bind_eq_some_iff.2 ⟨i, hi, ?_⟩, hy⟩
        exact List.getElem?_eq_getElem (h.1 ▸ hlt)
      | _ => cases h
    | _ => cases hx

/-- What holds of an equality of scalars with respect to a weaker one, holds of the trees. -/
theorem alike_mono {weaker : Value → Value → Bool}
    (hweaker : ∀ a b, scalar a b = true → weaker a b = true) (h : alike scalar v w = true) :
    alike weaker v w = true := by
  induction v using Value.induction generalizing w with
  | scalar v hv =>
    rw [alike_of_scalar hv] at h ⊢
    exact hweaker v w h
  | arr xs ih =>
    cases w with
    | arr ys =>
      rw [alike, alikeItems_iff, List.forall₂_iff_get] at h ⊢
      exact ⟨h.1, fun i hi hj => ih _ (List.get_mem xs ⟨i, hi⟩) (h.2 i hi hj)⟩
    | _ => cases h
  | obj ms ih =>
    cases w with
    | obj ns =>
      rw [alike, Bool.and_eq_true, alikeMembers_iff] at h ⊢
      refine ⟨h.1, fun m hm => ?_⟩
      obtain ⟨u, hu, halike⟩ := h.2 m hm
      exact ⟨u, hu, ih m hm halike⟩
    | _ => cases h

/-! ## 2. Booleans -/

def isBoolean : Value → Bool
  | .bool _ => true
  | _ => false

/-- Wherever both trees have a value, it is a boolean in both or in neither. -/
def SameBooleans (v w : Value) : Prop :=
  ∀ keys x y, v.at? keys = some x → w.at? keys = some y → x.isBoolean = y.isBoolean

theorem SameBooleans.member {ms ns : Members Value} {k : String}
    (h : SameBooleans (.obj ms) (.obj ns)) (hx : ms.get? k = some x) (hy : ns.get? k = some y) :
    SameBooleans x y := fun keys _ _ hx' hy' =>
  h (k :: keys) _ _ (Option.bind_eq_some_iff.2 ⟨x, hx, hx'⟩) (Option.bind_eq_some_iff.2 ⟨y, hy, hy'⟩)

theorem SameBooleans.item {xs ys : List Value} {i : Nat}
    (h : SameBooleans (.arr xs) (.arr ys)) (hx : xs[i]? = some x) (hy : ys[i]? = some y) :
    SameBooleans x y := by
  intro keys x' y' hx' hy'
  have hitem : ∀ {zs : List Value} {z z' : Value}, zs[i]? = some z → z.at? keys = some z' →
      (Value.arr zs).at? (toString i :: keys) = some z' := fun hz hz' =>
    Option.bind_eq_some_iff.2 ⟨_, Option.bind_eq_some_iff.2 ⟨i, indexOf?_toString i, hz⟩, hz'⟩
  exact h (toString i :: keys) x' y' (hitem hx hx') (hitem hy hy')

/-! ## 3. From one equality to the other -/

theorem looseScalar_of_strictScalar (a b : Value) (h : strictScalar a b = true) :
    looseScalar a b = true := by
  cases a <;> cases b <;> try cases h
  case null => rfl
  case bool a b =>
    obtain rfl : a = b := by simpa [strictScalar] using h
    cases a <;> decide
  case num m n => exact looseScalar_iff.2 (.inl ⟨m, n, rfl, rfl, .inl h⟩)
  case str s t => exact h

theorem isBoolean_of_jsonEqual (h : v.jsonEqual w = true) : v.isBoolean = w.isBoolean := by
  cases v <;> cases w <;> first | rfl | cases h

/-- Scalars that are loosely equal and both booleans, or neither, are equal. -/
theorem strictScalar_of_looseScalar (h : looseScalar v w = true) (hv : v.Orderly (·.isNaN = false))
    (hboolean : v.isBoolean = w.isBoolean) : strictScalar v w = true := by
  obtain ⟨m, n, hm, hn, hsame⟩ | ⟨-, -, hstrict⟩ := looseScalar_iff.1 h
  · cases v with
    | bool a =>
      cases w with
      | bool b =>
        -- The numbers that booleans count as are the same only for the same boolean.
        cases hm
        cases hn
        cases a <;> cases b <;> first | rfl | exact absurd hsame (by decide +kernel)
      | _ => cases hboolean
    | num m' =>
      cases w with
      | num n' =>
        cases hm
        cases hn
        rcases hsame with hsame | hcopy
        · exact hsame
        · obtain ⟨mark, rfl, -⟩ := Number.isCopy_iff.1 hcopy
          cases hv
      | bool b => cases hboolean
      | _ => cases hn
    | _ => cases hm
  · exact hstrict

theorem jsonEqual_of_looseEqual (h : v.looseEqual w = true) (hv : v.Orderly (·.isNaN = false))
    (hbooleans : SameBooleans v w) : v.jsonEqual w = true := by
  unfold looseEqual at h
  unfold jsonEqual
  induction v using Value.induction generalizing w with
  | scalar v hscalar =>
    rw [alike_of_scalar hscalar] at h ⊢
    exact strictScalar_of_looseScalar h hv (hbooleans [] v w (by simp [at?]) (by simp [at?]))
  | arr xs ih =>
    cases w with
    | arr ys =>
      rw [orderly_arr_iff] at hv
      rw [alike, alikeItems_iff, List.forall₂_iff_get] at h ⊢
      refine ⟨h.1, fun i hi hj => ?_⟩
      have hmem := List.get_mem xs ⟨i, hi⟩
      refine ih _ hmem (h.2 i hi hj) (hv _ hmem) (hbooleans.item (i := i) ?_ ?_)
      · exact List.getElem?_eq_getElem hi
      · exact List.getElem?_eq_getElem hj
    | _ => cases h
  | obj ms ih =>
    cases w with
    | obj ns =>
      rw [orderly_obj_iff] at hv
      rw [alike, Bool.and_eq_true, alikeMembers_iff] at h ⊢
      refine ⟨h.1, fun m hm => ?_⟩
      obtain ⟨u, hu, halike⟩ := h.2 m hm
      have hget : ms.get? m.1 = some m.2 := Members.get?_of_mem hv.1 hm
      exact ⟨u, hu, ih m hm halike (hv.2 m hm) (hbooleans.member hget hu)⟩
    | _ => cases h

/-- Without NaNs, trees are equal exactly when they are loosely equal and have their booleans at the
same places. -/
theorem jsonEqual_iff (hv : v.Orderly (·.isNaN = false)) :
    v.jsonEqual w = true ↔ v.looseEqual w = true ∧ SameBooleans v w := by
  constructor
  · intro h
    refine ⟨alike_mono looseScalar_of_strictScalar h, fun keys x y hx hy => ?_⟩
    obtain ⟨y', hy', hxy⟩ := alike_at? h hx
    obtain rfl : y = y' := Option.some.inj (hy.symm.trans hy')
    exact isBoolean_of_jsonEqual hxy
  · rintro ⟨hloose, hbooleans⟩
    exact jsonEqual_of_looseEqual hloose hv hbooleans

end Value

end Dashboards
