import Dashboards.Document.NonFinite
import Dashboards.Json.Limits
import Dashboards.Proofs.Json.Equality

/-!
# What keeps within the limits

A collection is within a depth where everything in it is within one less, and it can be encoded where
everything in it can be.  Members that are set go beyond no limit that they and what they are set to
keep within, and to show no numbers that are not finite makes nothing deeper.
-/

namespace Dashboards

namespace Value

variable {ms : Members Value} {xs : List Value} {n : Nat}

/-! ## 1. Depths -/

theorem depthOfItems_le_iff : depthOfItems xs ≤ n ↔ ∀ x ∈ xs, x.depth ≤ n := by
  induction xs with
  | nil => simp [depthOfItems]
  | cons x xs ih => rw [depthOfItems, Nat.max_le, ih, List.forall_mem_cons]

theorem depthOfMembers_le_iff : depthOfMembers ms ≤ n ↔ ∀ m ∈ ms, m.2.depth ≤ n := by
  induction ms with
  | nil => simp [depthOfMembers]
  | cons m ms ih => rw [depthOfMembers, Nat.max_le, ih, List.forall_mem_cons]

theorem depth_arr_le_iff : (Value.arr xs).depth ≤ n + 1 ↔ ∀ x ∈ xs, x.depth ≤ n := by
  rw [depth, Nat.add_le_add_iff_right, depthOfItems_le_iff]

theorem depth_obj_le_iff : (Value.obj ms).depth ≤ n + 1 ↔ ∀ m ∈ ms, m.2.depth ≤ n := by
  rw [depth, Nat.add_le_add_iff_right, depthOfMembers_le_iff]

theorem depth_of_scalar {v : Value} (h : v.isCollection = false) : v.depth = 1 := by
  cases v with
  | arr xs => cases h
  | obj ms => cases h
  | _ => rfl

theorem depth_le_of_scalar {v : Value} (h : v.isCollection = false) (hn : 0 < n) : v.depth ≤ n :=
  depth_of_scalar h ▸ hn

theorem depth_ofStrings (ss : List String) : (ofStrings ss).depth ≤ 2 := by
  refine depth_arr_le_iff.2 fun v hv => ?_
  obtain ⟨s, -, rfl⟩ := List.mem_map.1 hv
  exact Nat.le_refl 1

theorem depthOfMembers_set (ms : Members Value) (key : String) (v : Value) :
    depthOfMembers (ms.set key v) ≤ max (depthOfMembers ms) v.depth := by
  induction ms with
  | nil => simp [Members.set, depthOfMembers]
  | cons e ms ih =>
    rw [Members.set]
    split
    · simp only [depthOfMembers]
      omega
    · simp only [depthOfMembers]
      omega

theorem depthOfMembers_overlay (ms more : Members Value) :
    depthOfMembers (ms.overlay more) ≤ max (depthOfMembers ms) (depthOfMembers more) := by
  induction more generalizing ms with
  | nil => exact Nat.le_max_left _ _
  | cons e more ih =>
    have hset := depthOfMembers_set ms e.1 e.2
    have hrest := ih (ms.set e.1 e.2)
    show depthOfMembers ((ms.set e.1 e.2).overlay more) ≤ _
    simp only [depthOfMembers]
    omega

theorem depth_finiteOnly (v : Value) : v.finiteOnly.depth = v.depth := by
  induction v using Value.induction with
  | scalar v hv =>
    rw [depth_of_scalar hv]
    cases v with
    | num k =>
      rw [finiteOnly]
      split <;> rfl
    | arr xs => cases hv
    | obj ms => cases hv
    | _ => rfl
  | arr xs ih =>
    have hitems : depthOfItems (finiteOnlyItems xs) = depthOfItems xs := by
      induction xs with
      | nil => rfl
      | cons x xs ihxs =>
        obtain ⟨hx, hxs⟩ := List.forall_mem_cons.1 ih
        rw [finiteOnlyItems, depthOfItems, depthOfItems, hx, ihxs hxs]
    rw [finiteOnly, depth, depth, hitems]
  | obj ms ih =>
    have hmembers : depthOfMembers (finiteOnlyMembers ms) = depthOfMembers ms := by
      induction ms with
      | nil => rfl
      | cons m ms ihms =>
        obtain ⟨hm, hms⟩ := List.forall_mem_cons.1 ih
        rw [finiteOnlyMembers, depthOfMembers, depthOfMembers, hm, ihms hms]
    rw [finiteOnly, depth, depth, hmembers]

/-! ## 2. Texts that can be encoded -/

theorem areEncodableItems_iff : areEncodableItems xs = true ↔ ∀ x ∈ xs, x.isEncodable = true := by
  induction xs with
  | nil => simp [areEncodableItems]
  | cons x xs ih => rw [areEncodableItems, Bool.and_eq_true, ih, List.forall_mem_cons]

theorem areEncodableMembers_iff : areEncodableMembers ms = true ↔
    ∀ m ∈ ms, Dashboards.isEncodable m.1 = true ∧ m.2.isEncodable = true := by
  induction ms with
  | nil => simp [areEncodableMembers]
  | cons m ms ih =>
    rw [areEncodableMembers, Bool.and_eq_true, Bool.and_eq_true, ih, List.forall_mem_cons]

theorem isEncodable_arr_iff : (Value.arr xs).isEncodable = true ↔ ∀ x ∈ xs, x.isEncodable = true := by
  rw [isEncodable, areEncodableItems_iff]

theorem isEncodable_obj_iff : (Value.obj ms).isEncodable = true ↔
    ∀ m ∈ ms, Dashboards.isEncodable m.1 = true ∧ m.2.isEncodable = true := by
  rw [isEncodable, areEncodableMembers_iff]

theorem isEncodable_ofStrings {ss : List String} :
    (ofStrings ss).isEncodable = true ↔ ∀ s ∈ ss, Dashboards.isEncodable s = true := by
  rw [ofStrings, isEncodable_arr_iff, List.forall_mem_map]
  rfl

theorem areEncodableMembers_append {more : Members Value} : areEncodableMembers (ms ++ more) = true ↔
    areEncodableMembers ms = true ∧ areEncodableMembers more = true := by
  simp only [areEncodableMembers_iff, List.forall_mem_append]

theorem areEncodableMembers_set {key : String} {v : Value} (hms : areEncodableMembers ms = true)
    (hkey : Dashboards.isEncodable key = true) (hv : v.isEncodable = true) :
    areEncodableMembers (ms.set key v) = true := by
  induction ms with
  | nil => simp [Members.set, areEncodableMembers, hkey, hv]
  | cons e ms ih =>
    simp only [areEncodableMembers, Bool.and_eq_true] at hms
    rw [Members.set]
    split
    · simp [areEncodableMembers, hms, hv]
    · simp [areEncodableMembers, hms, ih hms.2]

theorem areEncodableMembers_overlay {more : Members Value} (hms : areEncodableMembers ms = true)
    (hmore : areEncodableMembers more = true) : areEncodableMembers (ms.overlay more) = true := by
  induction more generalizing ms with
  | nil => exact hms
  | cons e more ih =>
    simp only [areEncodableMembers, Bool.and_eq_true] at hmore
    exact ih (areEncodableMembers_set hms hmore.1.1 hmore.1.2) hmore.2

end Value

end Dashboards
