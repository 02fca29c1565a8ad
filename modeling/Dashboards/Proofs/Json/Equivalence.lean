import Mathlib.Data.List.Perm.Subperm
import Dashboards.Proofs.Patch.Frames

/-!
# The equality of patch tests is an equivalence

On trees without NaNs the equality of patch tests is reflexive, symmetric and transitive.  It is finer
than the equality that takes booleans for numbers, and the same on trees without booleans.  Equal trees
have equal values at the same pointers.
-/

namespace Dashboards

/-! ## 1. Keys of objects of one length -/

namespace Members

variable {α : Type} {ms ns : Members α}

/-- Of two objects of one length, the second has no other keys if it has all keys of the first. -/
theorem keys_perm_of_length (hkeys : ms.keys.Nodup) (hlength : ms.length = ns.length)
    (hfound : ∀ m ∈ ms, (ns.get? m.1).isSome) : ms.keys.Perm ns.keys := by
  have hsubset : ms.keys ⊆ ns.keys := by
    intro key hkey
    obtain ⟨m, hm, rfl⟩ := List.mem_map.1 hkey
    obtain ⟨w, hw⟩ := Option.isSome_iff_exists.1 (hfound m hm)
    exact List.mem_map.2 ⟨_, mem_of_get? hw, rfl⟩
  refine (List.subperm_of_subset hkeys hsubset).perm_of_length_le (Nat.le_of_eq ?_)
  rw [keys, keys, List.length_map, List.length_map, hlength]

end Members

namespace Value

variable {scalar : Value → Value → Bool} {fine : Number → Prop} {v w x y : Value}
  {keys : List String}

/-! ## 2. Symmetry -/

theorem alike_symm (hscalar : ∀ a b, scalar a b = true → scalar b a = true)
    (hleaf : ∀ a b, scalar a b = true → b.isCollection = false) (hv : v.Orderly fine)
    (hw : w.Orderly fine) (h : alike scalar v w = true) : alike scalar w v = true := by
  induction v using Value.induction generalizing w with
  | scalar v hcollection =>
    rw [alike_of_scalar hcollection] at h
    rw [alike_of_scalar (hleaf v w h)]
    exact hscalar v w h
  | arr xs ih =>
    cases w with
    | arr ys =>
      rw [orderly_arr_iff] at hv hw
      rw [alike, alikeItems_iff, List.forall₂_iff_get] at h ⊢
      refine ⟨h.1.symm, fun i hi hj => ?_⟩
      exact ih _ (List.get_mem xs ⟨i, hj⟩) (hv _ (List.get_mem xs ⟨i, hj⟩))
        (hw _ (List.get_mem ys ⟨i, hi⟩)) (h.2 i hj hi)
    | _ => cases h
  | obj ms ih =>
    cases w with
    | obj ns =>
      rw [orderly_obj_iff] at hv hw
      rw [alike, Bool.and_eq_true, beq_iff_eq, alikeMembers_iff] at h ⊢
      refine ⟨h.1.symm, fun n hn => ?_⟩
      -- The entry of the second object has its key from the first one, as there are no others.
      have hfound : ∀ m ∈ ms, (Members.get? ns m.1).isSome := fun m hm => by
        obtain ⟨u, hu, -⟩ := h.2 m hm
        exact hu ▸ rfl
      have hkey : n.1 ∈ Members.keys ms :=
        (Members.keys_perm_of_length hv.1 h.1 hfound).mem_iff.2 (List.mem_map.2 ⟨n, hn, rfl⟩)
      obtain ⟨m, hm, hmn⟩ := List.mem_map.1 hkey
      obtain ⟨u, hu, halike⟩ := h.2 m hm
      obtain rfl : u = n.2 :=
        Option.some.inj (hu.symm.trans (hmn ▸ Members.get?_of_mem hw.1 hn))
      exact ⟨m.2, hmn ▸ Members.get?_of_mem hv.1 hm, ih m hm (hv.2 m hm) (hw.2 n hn) halike⟩
    | _ => cases h

theorem isCollection_of_strictScalar {a b : Value} (h : strictScalar a b = true) :
    b.isCollection = false := by
  cases a <;> cases b <;> first | rfl | cases h

theorem strictScalar_symm {a b : Value} (h : strictScalar a b = true) :
    strictScalar b a = true := by
  cases a <;> cases b <;> try cases h
  case null => rfl
  case bool a b => exact beq_iff_eq.2 (beq_iff_eq.1 h).symm
  case num m n => exact Number.same_symm h
  case str s t => exact beq_iff_eq.2 (beq_iff_eq.1 h).symm

theorem strictScalar_trans {a b c : Value} (hab : strictScalar a b = true)
    (hbc : strictScalar b c = true) : strictScalar a c = true := by
  cases a <;> cases b <;> (try cases hab) <;> cases c <;> try cases hbc
  case null => rfl
  case bool a b c => exact beq_iff_eq.2 ((beq_iff_eq.1 hab).trans (beq_iff_eq.1 hbc))
  case num l m n => exact Number.same_trans hab hbc
  case str s t u => exact beq_iff_eq.2 ((beq_iff_eq.1 hab).trans (beq_iff_eq.1 hbc))

theorem jsonEqual_symm (hv : v.Orderly fine) (hw : w.Orderly fine) (h : v.jsonEqual w = true) :
    w.jsonEqual v = true :=
  alike_symm (fun _ _ => strictScalar_symm) (fun _ _ => isCollection_of_strictScalar) hv hw h

theorem jsonEqual_trans (hvw : v.jsonEqual w = true) (hwx : w.jsonEqual x = true) :
    v.jsonEqual x = true :=
  @alike_trans strictScalar (fun _ _ _ => strictScalar_trans)
    (fun _ _ => isCollection_of_strictScalar) _ _ _ hvw hwx

/-! ## 3. Trees without booleans -/

/-- A tree that stands somewhere in a tree. -/
inductive Part (x : Value) : Value → Prop
  | here : Part x x
  | item {y : Value} {xs : List Value} (hy : y ∈ xs) (h : Part x y) : Part x (.arr xs)
  | member {m : String × Value} {ms : Members Value} (hm : m ∈ ms) (h : Part x m.2) :
      Part x (.obj ms)

theorem part_of_at? (h : v.at? keys = some x) : Part x v := by
  induction keys generalizing v with
  | nil =>
    obtain rfl : v = x := by simpa [at?] using h
    exact .here
  | cons k ks ih =>
    cases v with
    | obj ms =>
      obtain ⟨u, hu, hx⟩ := Option.bind_eq_some_iff.1 h
      exact .member (Members.mem_of_get? hu) (ih hx)
    | arr xs =>
      obtain ⟨u, hu, hx⟩ := Option.bind_eq_some_iff.1 h
      obtain ⟨i, -, hi⟩ := Option.bind_eq_some_iff.1 hu
      exact .item (List.mem_of_getElem? hi) (ih hx)
    | _ => cases h

/-- There is no boolean anywhere in the tree. -/
def BooleanFree (v : Value) : Prop := ∀ b : Bool, ¬ Part (.bool b) v

theorem BooleanFree.isBoolean_at? (h : v.BooleanFree) (hx : v.at? keys = some x) :
    x.isBoolean = false := by
  cases x with
  | bool b => exact absurd (part_of_at? hx) (h b)
  | _ => rfl

theorem sameBooleans_of_booleanFree (hv : v.BooleanFree) (hw : w.BooleanFree) : SameBooleans v w :=
  fun _ _ _ hx hy => (hv.isBoolean_at? hx).trans (hw.isBoolean_at? hy).symm

/-! ## 4. Pointers into equal trees -/

theorem at?_obj_singleton {ms : Members Value} {k : String} :
    (Value.obj ms).at? [k] = ms.get? k := by
  rw [at?_obj]
  cases ms.get? k <;> simp [at?]

theorem at?_arr_singleton {xs : List Value} {k : String} :
    (Value.arr xs).at? [k] = (indexOf? k).bind (xs[·]?) := by
  rw [at?]
  cases (indexOf? k).bind (xs[·]?) <;> simp [at?]

/-- An overlong index that is met in one of two equal trees is met in the other. -/
theorem overlongAt?_of_alike {digits : Nat} (h : alike scalar v w = true)
    (hlong : v.overlongAt? keys = some digits) : w.overlongAt? keys = some digits := by
  induction keys generalizing v w with
  | nil => cases v <;> cases hlong
  | cons k ks ih =>
    cases v with
    | obj ms =>
      obtain ⟨u, hu, hrest⟩ := Option.bind_eq_some_iff.1 hlong
      obtain ⟨u', hu', halike⟩ := alike_at? h (at?_obj_singleton.trans hu)
      cases w with
      | obj ns =>
        rw [at?_obj_singleton] at hu'
        rw [overlongAt?, hu', Option.bind_some]
        exact ih halike hrest
      | _ => cases h
    | arr xs =>
      cases w with
      | arr ys =>
        rw [overlongAt?] at hlong ⊢
        -- The index itself is overlong in both arrays, or they go on with equal items.
        cases hk : overlongIndex? k with
        | some n =>
          rw [hk] at hlong
          exact hlong
        | none =>
          rw [hk] at hlong
          obtain ⟨u, hu, hrest⟩ := Option.bind_eq_some_iff.1 hlong
          obtain ⟨u', hu', halike⟩ := alike_at? h (at?_arr_singleton.trans hu)
          rw [at?_arr_singleton] at hu'
          dsimp only
          rw [hu', Option.bind_some]
          exact ih halike hrest
      | _ => cases h
    | _ => cases hlong

theorem overlongAt?_of_jsonEqual (hv : v.Orderly fine) (hw : w.Orderly fine)
    (h : v.jsonEqual w = true) (keys : List String) : v.overlongAt? keys = w.overlongAt? keys :=
  Option.ext fun _ => ⟨overlongAt?_of_alike h, overlongAt?_of_alike (jsonEqual_symm hv hw h)⟩

end Value

namespace Patch

variable {v w x : Value} {p : Pointer} {fine : Number → Prop}

theorem valueAt_of_jsonEqual (hv : v.Orderly fine) (hw : w.Orderly fine) (h : v.jsonEqual w = true)
    (hx : valueAt p v = .ok (some x)) :
    ∃ y, valueAt p w = .ok (some y) ∧ x.jsonEqual y = true := by
  obtain ⟨hlong, hfound⟩ := valueAt_eq_ok_iff.1 hx
  obtain ⟨y, hy, hxy⟩ := Value.alike_at? h hfound
  rw [Value.overlongAt?_of_jsonEqual hv hw h] at hlong
  exact ⟨y, valueAt_eq_ok_iff.2 ⟨hlong, hy⟩, hxy⟩

/-- A pointer resolves in both of two equal trees or in neither, and in both to equal values; and if
it cannot be read in the one, it cannot be read in the other. -/
theorem valueAt_congr (hv : v.Orderly fine) (hw : w.Orderly fine) (h : v.jsonEqual w = true)
    (p : Pointer) :
    ((∃ x, valueAt p v = .ok (some x)) ↔ ∃ y, valueAt p w = .ok (some y)) ∧
      (∀ x y, valueAt p v = .ok (some x) → valueAt p w = .ok (some y) → x.jsonEqual y = true) ∧
      ∀ f, valueAt p v = .error f ↔ valueAt p w = .error f := by
  refine ⟨⟨fun ⟨x, hx⟩ => ?_, fun ⟨y, hy⟩ => ?_⟩, fun x y hx hy => ?_, fun f => ?_⟩
  · obtain ⟨y, hy, -⟩ := valueAt_of_jsonEqual hv hw h hx
    exact ⟨y, hy⟩
  · obtain ⟨x, hx, -⟩ := valueAt_of_jsonEqual hw hv (Value.jsonEqual_symm hv hw h) hy
    exact ⟨x, hx⟩
  · obtain ⟨y', hy', hxy⟩ := valueAt_of_jsonEqual hv hw h hx
    obtain rfl : y' = y := Option.some.inj (Except.ok.inj (hy'.symm.trans hy))
    exact hxy
  · unfold valueAt
    rw [Value.overlongAt?_of_jsonEqual hv hw h]
    cases w.overlongAt? p.keys <;> simp

/-- The equality of patch tests is an equivalence of trees without NaNs.  It implies the equality that
takes booleans for numbers, which implies it where there are no booleans.  Equal trees resolve the same
pointers, and to equal values.  In a tree, as ever, an object has each key once. -/
theorem jsonEqual_equivalence :
    (∀ a : Value, a.Orderly (·.isNaN = false) → a.jsonEqual a = true) ∧
      (∀ a b : Value, (a.Orderly fun _ => True) → (b.Orderly fun _ => True) →
        a.jsonEqual b = true → b.jsonEqual a = true) ∧
      (∀ a b c : Value, a.jsonEqual b = true → b.jsonEqual c = true → a.jsonEqual c = true) ∧
      (∀ a b : Value, a.jsonEqual b = true → a.looseEqual b = true) ∧
      (∀ a b : Value, a.Orderly (·.isNaN = false) → a.BooleanFree → b.BooleanFree →
        a.looseEqual b = true → a.jsonEqual b = true) ∧
      ∀ a b : Value, (a.Orderly fun _ => True) → (b.Orderly fun _ => True) →
        a.jsonEqual b = true → ∀ p,
          ((∃ x, valueAt p a = .ok (some x)) ↔ ∃ y, valueAt p b = .ok (some y)) ∧
            (∀ x y, valueAt p a = .ok (some x) → valueAt p b = .ok (some y) →
              x.jsonEqual y = true) ∧
            ∀ f, valueAt p a = .error f ↔ valueAt p b = .error f :=
  ⟨fun _ => Value.jsonEqual_refl, fun _ _ => Value.jsonEqual_symm, fun _ _ _ => Value.jsonEqual_trans,
    fun _ _ => Value.alike_mono Value.looseScalar_of_strictScalar,
    fun _ _ hnan ha hb hloose =>
      Value.jsonEqual_of_looseEqual hloose hnan (Value.sameBooleans_of_booleanFree ha hb),
    fun _ _ => valueAt_congr⟩

example : (Value.obj [("a", .num (.int 1)), ("b", .arr [.null])]).jsonEqual
    (.obj [("b", .arr [.null]), ("a", .num (.float 1.0))]) = true := by decide +kernel

end Patch

end Dashboards
