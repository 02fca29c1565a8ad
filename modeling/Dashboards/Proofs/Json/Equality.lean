import Mathlib.Data.List.Forall2
import Dashboards.Json.Equality

/-!
# Laws of the two equalities

A JSON tree is a scalar, an array of trees or an object of trees, and what is proved of trees is
proved along these three.  The loose equality of blocked sections is transitive on all trees.  On
trees as documents are made, in which a key occurs once in an object, a tree equals itself.
-/

namespace Dashboards

/-! ## 1. Members -/

namespace Members

variable {α : Type} {ms : Members α} {key : String} {v : α}

theorem mem_of_get? (h : ms.get? key = some v) : (key, v) ∈ ms := by
  induction ms with
  | nil => cases h
  | cons m ms ih =>
    rw [get?] at h
    split at h
    · rename_i hk
      cases h
      subst hk
      exact List.mem_cons_self
    · exact List.mem_cons_of_mem _ (ih h)

/-- Where every key occurs once, an entry is found under its key. -/
theorem get?_of_mem (hkeys : ms.keys.Nodup) (h : (key, v) ∈ ms) : ms.get? key = some v := by
  induction ms with
  | nil => cases h
  | cons m ms ih =>
    obtain ⟨hfirst, hrest⟩ := List.nodup_cons.1 hkeys
    rw [get?]
    rcases List.mem_cons.1 h with rfl | htail
    · exact if_pos rfl
    · have hne : m.1 ≠ key := by
        rintro rfl
        exact hfirst (List.mem_map.2 ⟨_, htail, rfl⟩)
      rw [if_neg hne, ih hrest htail]

end Members

/-! ## 2. Numbers -/

namespace Number

theorem isCopy_iff {m n : Number} :
    m.isCopy n = true ↔ ∃ mark, m = .undefined mark ∧ n = .undefined mark := by
  cases m <;> cases n <;> simp [isCopy]
  exact eq_comm

theorem isNaN_of_isFinite {n : Number} (h : n.isFinite = true) : n.isNaN = false := by
  unfold isFinite at h
  unfold isNaN
  cases hexact : n.exact with
  | finite r => rfl
  | _ => rw [hexact] at h; cases h

/-- A NaN is the same as nothing. -/
theorem not_same_undefined (n : Number) (mark : Nat) : ¬ n.same (.undefined mark) = true := by
  intro h
  have hnan := (same_iff.1 (same_symm h)).2
  simp [isNaN, exact] at hnan

/-- Numbers that are the same or copies of one NaN: what the loose equality takes as equal. -/
theorem sameOrCopy_trans {l m n : Number} (hlm : l.same m = true ∨ l.isCopy m = true)
    (hmn : m.same n = true ∨ m.isCopy n = true) : l.same n = true ∨ l.isCopy n = true := by
  rcases hlm with hlm | hlm <;> rcases hmn with hmn | hmn
  · exact .inl (same_trans hlm hmn)
  · obtain ⟨mark, rfl, -⟩ := isCopy_iff.1 hmn
    exact absurd hlm (not_same_undefined l mark)
  · obtain ⟨mark, -, rfl⟩ := isCopy_iff.1 hlm
    exact absurd (same_symm hmn) (not_same_undefined n mark)
  · obtain ⟨mark, rfl, rfl⟩ := isCopy_iff.1 hlm
    exact .inr hmn

end Number

namespace Value

/-! ## 3. Trees -/

def isCollection : Value → Bool
  | .arr _ | .obj _ => true
  | _ => false

/-- A property of all scalars that passes from the items to an array and from the members to an
object holds of all trees. -/
@[elab_as_elim]
theorem induction {motive : Value → Prop}
    (scalar : ∀ v : Value, v.isCollection = false → motive v)
    (arr : ∀ xs : List Value, (∀ x ∈ xs, motive x) → motive (.arr xs))
    (obj : ∀ ms : Members Value, (∀ m ∈ ms, motive m.2) → motive (.obj ms)) :
    ∀ v : Value, motive v
  | .null => scalar _ rfl
  | .bool _ => scalar _ rfl
  | .num _ => scalar _ rfl
  | .str _ => scalar _ rfl
  | .arr xs => arr xs fun x _ => induction scalar arr obj x
  | .obj ms => obj ms fun m _ => induction scalar arr obj m.2
termination_by v => sizeOf v
decreasing_by
  · have := List.sizeOf_lt_of_mem ‹x ∈ xs›
    simp only [Value.arr.sizeOf_spec]
    omega
  · have := List.sizeOf_lt_of_mem ‹m ∈ ms›
    have hpair : sizeOf m.2 < sizeOf m := by
      cases m
      simp only [Prod.mk.sizeOf_spec]
      omega
    simp only [Value.obj.sizeOf_spec]
    omega

/-! ## 4. Deep equality -/

variable {scalar : Value → Value → Bool}

theorem alike_of_scalar {a b : Value} (h : a.isCollection = false) :
    alike scalar a b = scalar a b := by
  cases a with
  | arr xs => cases h
  | obj ms => cases h
  | _ => rfl

theorem alikeItems_iff {xs ys : List Value} :
    alikeItems scalar xs ys = true ↔ List.Forall₂ (fun x y => alike scalar x y = true) xs ys := by
  induction xs generalizing ys with
  | nil =>
    cases ys with
    | nil => simp [alikeItems]
    | cons y ys => simp [alikeItems]
  | cons x xs ih =>
    cases ys with
    | nil => simp [alikeItems]
    | cons y ys => rw [alikeItems, Bool.and_eq_true, ih, List.forall₂_cons]

theorem alikeMembers_iff {ms ns : Members Value} :
    alikeMembers scalar ms ns = true ↔
      ∀ m ∈ ms, ∃ w, ns.get? m.1 = some w ∧ alike scalar m.2 w = true := by
  induction ms with
  | nil => simp [alikeMembers]
  | cons m ms ih =>
    rw [alikeMembers, Bool.and_eq_true, ih, List.forall_mem_cons]
    cases ns.get? m.1 <;> simp

theorem alike_trans (hscalar : ∀ a b c, scalar a b = true → scalar b c = true → scalar a c = true)
    (hleaf : ∀ a b, scalar a b = true → b.isCollection = false) {a b c : Value}
    (hab : alike scalar a b = true) (hbc : alike scalar b c = true) : alike scalar a c = true := by
  induction a using Value.induction generalizing b c with
  | scalar a ha =>
    rw [alike_of_scalar ha] at hab ⊢
    rw [alike_of_scalar (hleaf a b hab)] at hbc
    exact hscalar a b c hab hbc
  | arr xs ih =>
    cases b with
    | arr ys =>
      cases c with
      | arr zs =>
        -- The three arrays are walked in step; the hypothesis on trees serves their items.
        rw [alike, alikeItems_iff] at hab hbc ⊢
        induction hab generalizing zs with
        | nil => exact hbc
        | @cons x y xs ys hxy _ ihtail =>
          cases hbc with
          | cons hyz htail =>
            exact .cons (ih x List.mem_cons_self hxy hyz)
              (ihtail (fun v hv => ih v (List.mem_cons_of_mem _ hv)) _ htail)
      | _ => cases hbc
    | _ => cases hab
  | obj ms ih =>
    cases b with
    | obj ns =>
      cases c with
      | obj os =>
        rw [alike, Bool.and_eq_true, beq_iff_eq, alikeMembers_iff] at hab hbc ⊢
        refine ⟨hab.1.trans hbc.1, fun m hm => ?_⟩
        obtain ⟨w, hw, hmw⟩ := hab.2 m hm
        -- The entry that was found under the key in the second object is looked up in the third.
        obtain ⟨u, hu, hwu⟩ := hbc.2 _ (Members.mem_of_get? hw)
        exact ⟨u, hu, ih m hm hmw hwu⟩
      | _ => cases hbc
    | _ => cases hab

/-! ## 5. The loose equality -/

/-- Two scalars are loosely equal as numbers, if both count as numbers, and otherwise strictly. -/
theorem looseScalar_iff {a b : Value} :
    looseScalar a b = true ↔
      (∃ m n, a.numeric? = some m ∧ b.numeric? = some n ∧ (m.same n = true ∨ m.isCopy n = true)) ∨
        (a.numeric? = none ∧ b.numeric? = none ∧ strictScalar a b = true) := by
  rw [looseScalar]
  cases a.numeric? <;> cases b.numeric? <;> simp

theorem strictScalar_eq {a b : Value} (ha : a.numeric? = none) (h : strictScalar a b = true) :
    a = b ∧ a.isCollection = false := by
  cases a <;> cases b <;> simp_all [strictScalar, numeric?, isCollection]

theorem isCollection_of_looseScalar {a b : Value} (h : looseScalar a b = true) :
    b.isCollection = false := by
  obtain ⟨m, n, -, hb, -⟩ | ⟨ha, hb, hab⟩ := looseScalar_iff.1 h
  · cases b <;> first | rfl | cases hb
  · obtain ⟨rfl, hscalar⟩ := strictScalar_eq ha hab
    exact hscalar

theorem looseScalar_trans {a b c : Value} (hab : looseScalar a b = true)
    (hbc : looseScalar b c = true) : looseScalar a c = true := by
  obtain ⟨l, m, ha, hb, hlm⟩ | ⟨ha, hb, hab⟩ := looseScalar_iff.1 hab
  · obtain ⟨m', n, hb', hc, hmn⟩ | ⟨hb', -, -⟩ := looseScalar_iff.1 hbc
    · obtain rfl : m = m' := Option.some.inj (hb.symm.trans hb')
      exact looseScalar_iff.2 (.inl ⟨l, n, ha, hc, Number.sameOrCopy_trans hlm hmn⟩)
    · rw [hb] at hb'
      cases hb'
  · obtain ⟨rfl, -⟩ := strictScalar_eq ha hab
    exact hbc

theorem looseEqual_trans {a b c : Value} (hab : a.looseEqual b = true)
    (hbc : b.looseEqual c = true) : a.looseEqual c = true :=
  @alike_trans looseScalar (fun _ _ _ => looseScalar_trans)
    (fun _ _ => isCollection_of_looseScalar) _ _ _ hab hbc

/-! ## 6. Orderly trees -/

mutual

/-- Every object in the tree has each of its keys once, and every number in it is fine. -/
def Orderly (fine : Number → Prop) : Value → Prop
  | .num n => fine n
  | .arr xs => OrderlyItems fine xs
  | .obj ms => (Members.keys ms).Nodup ∧ OrderlyMembers fine ms
  | _ => True
termination_by structural v => v

def OrderlyItems (fine : Number → Prop) : List Value → Prop
  | [] => True
  | x :: xs => Orderly fine x ∧ OrderlyItems fine xs
termination_by structural xs => xs

def OrderlyMembers (fine : Number → Prop) : List (String × Value) → Prop
  | [] => True
  | (_, v) :: rest => Orderly fine v ∧ OrderlyMembers fine rest
termination_by structural ms => ms

end

variable {fine : Number → Prop}

theorem orderly_arr_iff {xs : List Value} :
    (Value.arr xs).Orderly fine ↔ ∀ x ∈ xs, x.Orderly fine := by
  rw [Orderly]
  induction xs with
  | nil => simp [OrderlyItems]
  | cons x xs ih => rw [OrderlyItems, ih, List.forall_mem_cons]

theorem orderly_obj_iff {ms : Members Value} :
    (Value.obj ms).Orderly fine ↔ ms.keys.Nodup ∧ ∀ m ∈ ms, m.2.Orderly fine := by
  rw [Orderly]
  have hmembers : ∀ ns : Members Value, OrderlyMembers fine ns ↔ ∀ m ∈ ns, m.2.Orderly fine := by
    intro ns
    induction ns with
    | nil => simp [OrderlyMembers]
    | cons n ns ih => rw [OrderlyMembers, ih, List.forall_mem_cons]
  rw [hmembers]

theorem Orderly.mono {weaker : Number → Prop} (hfine : ∀ n, fine n → weaker n) {v : Value}
    (h : v.Orderly fine) : v.Orderly weaker := by
  induction v using Value.induction with
  | scalar v hv =>
    cases v with
    | num n => exact hfine n h
    | arr xs => cases hv
    | obj ms => cases hv
    | _ => trivial
  | arr xs ih =>
    rw [orderly_arr_iff] at h ⊢
    exact fun x hx => ih x hx (h x hx)
  | obj ms ih =>
    rw [orderly_obj_iff] at h ⊢
    exact ⟨h.1, fun m hm => ih m hm (h.2 m hm)⟩

/-- An orderly tree equals itself, if its numbers do. -/
theorem looseEqual_refl {v : Value} (h : v.Orderly fun n => n.same n = true ∨ n.isCopy n = true) :
    v.looseEqual v = true := by
  unfold looseEqual
  induction v using Value.induction with
  | scalar v hv =>
    rw [alike_of_scalar hv]
    cases v with
    | num n => exact looseScalar_iff.2 (.inl ⟨n, n, rfl, rfl, h⟩)
    | bool b => cases b <;> decide
    | arr xs => cases hv
    | obj ms => cases hv
    | null => rfl
    | str s => simp [looseScalar, numeric?, strictScalar]
  | arr xs ih =>
    rw [orderly_arr_iff] at h
    rw [alike, alikeItems_iff, List.forall₂_same]
    exact fun x hx => ih x hx (h x hx)
  | obj ms ih =>
    rw [orderly_obj_iff] at h
    rw [alike, Bool.and_eq_true, beq_iff_eq, alikeMembers_iff]
    exact ⟨rfl, fun m hm => ⟨m.2, Members.get?_of_mem h.1 hm, ih m hm (h.2 m hm)⟩⟩

end Value

end Dashboards
