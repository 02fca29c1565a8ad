import Dashboards.Simulation
import Dashboards.Proofs.Json.Reader

/-!
# Documents of sound structure

Structural validation finds nothing in a document exactly if every number in its tree is finite and
each of its typed sections has its declared shape.  The tab that the document is expected to have
takes no part in it, and neither does the number of the version that is put into the document: an
integer is finite, it has the shape of a version, and the other sections are as they were.
-/

namespace Dashboards

/-! ## 1. Numbers -/

namespace Value

/-- The number stands somewhere in the tree. -/
inductive HasNumber (n : Number) : Value → Prop
  | here : HasNumber n (.num n)
  | item {x : Value} {xs : List Value} (hx : x ∈ xs) (h : HasNumber n x) : HasNumber n (.arr xs)
  | member {m : String × Value} {ms : Members Value} (hm : m ∈ ms) (h : HasNumber n m.2) :
      HasNumber n (.obj ms)

theorem hasNumber_num_iff {n k : Number} : HasNumber n (.num k) ↔ n = k :=
  ⟨fun h => by cases h; rfl, fun h => h ▸ .here⟩

theorem hasNumber_arr_iff {n : Number} {xs : List Value} :
    HasNumber n (.arr xs) ↔ ∃ x ∈ xs, HasNumber n x :=
  ⟨fun h => by cases h with | item hx h => exact ⟨_, hx, h⟩, fun ⟨_, hx, h⟩ => .item hx h⟩

theorem hasNumber_obj_iff {n : Number} {ms : Members Value} :
    HasNumber n (.obj ms) ↔ ∃ m ∈ ms, HasNumber n m.2 :=
  ⟨fun h => by cases h with | member hm h => exact ⟨_, hm, h⟩, fun ⟨_, hm, h⟩ => .member hm h⟩

theorem nonFiniteItems_eq_nil_iff {path : String} {xs : List Value} (index : Nat)
    (h : ∀ x ∈ xs, ∀ path, nonFinite path x = [] ↔ ∀ n, HasNumber n x → n.isFinite = true) :
    nonFiniteItems path index xs = [] ↔ ∀ x ∈ xs, ∀ n, HasNumber n x → n.isFinite = true := by
  induction xs generalizing index with
  | nil => simp [nonFiniteItems]
  | cons x xs ih =>
    obtain ⟨hx, hxs⟩ := List.forall_mem_cons.1 h
    rw [nonFiniteItems, List.append_eq_nil_iff, hx, ih _ hxs, List.forall_mem_cons]

theorem nonFiniteMembers_eq_nil_iff {path : String} {ms : Members Value}
    (h : ∀ m ∈ ms, ∀ path, nonFinite path m.2 = [] ↔ ∀ n, HasNumber n m.2 → n.isFinite = true) :
    nonFiniteMembers path ms = [] ↔ ∀ m ∈ ms, ∀ n, HasNumber n m.2 → n.isFinite = true := by
  induction ms with
  | nil => simp [nonFiniteMembers]
  | cons m ms ih =>
    obtain ⟨hm, hms⟩ := List.forall_mem_cons.1 h
    rw [nonFiniteMembers, List.append_eq_nil_iff, hm, ih hms, List.forall_mem_cons]

/-- The scan lists nothing exactly if every number in the tree is finite. -/
theorem nonFinite_eq_nil_iff {v : Value} (path : String) :
    v.nonFinite path = [] ↔ ∀ n, HasNumber n v → n.isFinite = true := by
  induction v using Value.induction generalizing path with
  | scalar v hv =>
    cases v with
    | num n =>
      simp only [hasNumber_num_iff, forall_eq]
      rw [nonFinite]
      split <;> simp_all
    | arr xs => cases hv
    | obj ms => cases hv
    | _ => exact ⟨fun _ n h => (nomatch h), fun _ => rfl⟩
  | arr xs ih =>
    rw [nonFinite, nonFiniteItems_eq_nil_iff 0 ih]
    simp only [hasNumber_arr_iff]
    exact ⟨fun h n ⟨x, hx, hn⟩ => h x hx n hn, fun h x hx n hn => h n ⟨x, hx, hn⟩⟩
  | obj ms ih =>
    rw [nonFinite, nonFiniteMembers_eq_nil_iff ih]
    simp only [hasNumber_obj_iff]
    exact ⟨fun h n ⟨m, hm, hn⟩ => h m hm n hn, fun h m hm n hn => h n ⟨m, hm, hn⟩⟩

/-- A tree is orderly if it has each key of an object once and fine numbers only. -/
theorem orderly_of_numbers {fine : Number → Prop} {v : Value} (h : v.Orderly fun _ => True)
    (hfine : ∀ n, HasNumber n v → fine n) : v.Orderly fine := by
  induction v using Value.induction with
  | scalar v hv =>
    cases v with
    | num n => exact hfine n .here
    | arr xs => cases hv
    | obj ms => cases hv
    | _ => trivial
  | arr xs ih =>
    rw [orderly_arr_iff] at h ⊢
    exact fun x hx => ih x hx (h x hx) fun n hn => hfine n (.item hx hn)
  | obj ms ih =>
    rw [orderly_obj_iff] at h ⊢
    exact ⟨h.1, fun m hm => ih m hm (h.2 m hm) fun n hn => hfine n (.member hm hn)⟩

end Value

/-! ## 2. Typed sections -/

namespace Shape

variable {α β : Type}

namespace Checked

@[simp] theorem faults_map (f : α → β) (c : Checked α) : (f <$> c).faults = c.faults := by
  cases c <;> rfl

@[simp] theorem faults_seq (f : Checked (α → β)) (c : Checked α) :
    (f <*> c).faults = f.faults ++ c.faults := by
  cases f with
  | good f => cases c <;> rfl
  | bad faults =>
    cases c with
    | good a => exact (List.append_nil faults).symm
    | bad more => rfl

theorem faults_under_eq_nil_iff {step : String} {c : Checked α} :
    (c.under step).faults = [] ↔ c.faults = [] := by
  cases c with
  | good a => exact Iff.rfl
  | bad faults => exact List.map_eq_nil_iff

end Checked

end Shape

namespace Typed

open Shape

variable {ms : Members Value} {fields : List Field}

theorem faults_readFields (ms : Members Value) (fields : List Field) :
    (readFields ms fields).faults = fields.flatMap fun f => (optional ms f.1 .null f.2).faults := by
  induction fields with
  | nil => rfl
  | cons f fields ih =>
    obtain ⟨name, read⟩ := f
    rw [readFields, Checked.faults_seq, Checked.faults_map, ih, List.flatMap_cons]

/-- The undeclared members of a section are kept as they are, so only its fields can be at fault. -/
theorem faults_section {shape : String} :
    (section_ shape fields (.obj ms)).faults =
      fields.flatMap fun f => (optional ms f.1 .null f.2).faults :=
  (Checked.faults_map _ _).trans (faults_readFields ms fields)

/-- A section keeps its shape where a member of it is set, if the new value suits the field that
declares the member. -/
theorem faults_section_set {shape key : String} {v : Value}
    (h : (section_ shape fields (.obj ms)).faults = [])
    (hsuits : ∀ f ∈ fields, f.1 = key → (f.2 v).faults = []) :
    (section_ shape fields (.obj (ms.set key v))).faults = [] := by
  rw [faults_section, List.flatMap_eq_nil_iff] at h ⊢
  intro f hf
  -- A field reads its own member only, which is the new one or the one it was.
  by_cases hkey : f.1 = key
  · rw [Shape.optional, hkey, Members.get?_set_self]
    exact Checked.faults_under_eq_nil_iff.2 (hsuits f hf hkey)
  · have hother := h f hf
    rw [Shape.optional] at hother ⊢
    rw [Members.get?_set_of_ne ms v hkey]
    exact hother

end Typed

/-! ## 3. Validation -/

variable {doc : Document} {tab : String}

/-- What structural validation promises of a document, whichever tab it is expected to have. -/
structure Document.Valid (doc : Document) : Prop where
  checked : ∀ tab, (validateStructure (.obj doc) tab).errors = []
  finite : ∀ n, (Value.obj doc).HasNumber n → n.isFinite = true
  typed : (Typed.dashboard (.obj doc)).faults = []

theorem errors_eq_nil_iff (tab : String) : (validateStructure (.obj doc) tab).errors = [] ↔
    (∀ n, (Value.obj doc).HasNumber n → n.isFinite = true) ∧
      (Typed.dashboard (.obj doc)).faults = [] := by
  rw [validateStructure, List.append_eq_nil_iff, List.map_eq_nil_iff, List.map_eq_nil_iff,
    Value.nonFinite_eq_nil_iff]

theorem Document.valid_iff (tab : String) :
    doc.Valid ↔ (validateStructure (.obj doc) tab).errors = [] := by
  constructor
  · exact fun h => h.checked tab
  · intro h
    obtain ⟨hfinite, htyped⟩ := (errors_eq_nil_iff tab).1 h
    exact ⟨fun tab => (errors_eq_nil_iff tab).2 ⟨hfinite, htyped⟩, hfinite, htyped⟩

/-- A valid document is still valid with the number of a version in it. -/
theorem Document.Valid.stamped (h : doc.Valid) (v : Int) : (doc.stamped v).Valid := by
  refine (Document.valid_iff "").2 ((errors_eq_nil_iff "").2 ⟨fun n hn => ?_, ?_⟩)
  -- A number in the new tree is the version or was in the tree before.
  · obtain ⟨m, hm, hn⟩ := Value.hasNumber_obj_iff.1 hn
    rcases Members.mem_set hm with rfl | hm
    · obtain rfl := Value.hasNumber_num_iff.1 hn
      rfl
    · exact h.finite n (.member hm hn)
  · refine Typed.faults_section_set h.typed fun f hf hversion => ?_
    -- Only the first of the declared fields is the version.
    simp only [List.mem_cons, List.not_mem_nil, or_false] at hf
    rcases hf with rfl | rfl | rfl | rfl | rfl | rfl | rfl | rfl
    · rfl
    all_goals exact absurd hversion (by decide)

end Dashboards
