import Dashboards.Shape.Basic

/-!
# Outcomes of steps

A computation that may fail and a check that may find faults both succeed only through the steps that
they are made of.  A computation whose steps all succeed succeeds, and what the steps say of their
results holds of its own.
-/

namespace Dashboards

/-- A computation that succeeds went on from a first step that did. -/
theorem exists_of_bind_eq_ok {ε α β : Type} {x : Except ε α} {f : α → Except ε β} {b : β}
    (h : x >>= f = .ok b) : ∃ a, x = .ok a ∧ f a = .ok b := by
  cases x with
  | error e => cases h
  | ok a => exact ⟨a, rfl, h⟩

/-- A loop that succeeds made each of its steps. -/
theorem exists_step_of_foldlM {ε α β : Type} {f : α → β → Except ε α} {bs : List β} {a a' : α}
    (h : bs.foldlM f a = .ok a') {b : β} (hb : b ∈ bs) : ∃ x x', f x b = .ok x' := by
  induction bs generalizing a with
  | nil => cases hb
  | cons first bs ih =>
    rw [List.foldlM_cons] at h
    obtain ⟨a₁, hfirst, hrest⟩ := exists_of_bind_eq_ok h
    rcases List.mem_cons.1 hb with rfl | hb
    · exact ⟨a, a₁, hfirst⟩
    · exact ih hrest hb

/-- What is found of items that are all looked at without a fault. -/
theorem filterMapM_eq_ok {ε α β : Type} {f : α → Except ε (Option β)} {g : α → Option β}
    {as : List α} (h : ∀ a ∈ as, f a = .ok (g a)) : as.filterMapM f = .ok (as.filterMap g) := by
  induction as with
  | nil => rfl
  | cons a as ih =>
    obtain ⟨ha, has⟩ := List.forall_mem_cons.1 h
    rw [List.filterMapM_cons, ha, List.filterMap_cons]
    cases g a with
    | none => exact ih has
    | some b =>
      show (as.filterMapM f >>= fun bs => pure (b :: bs)) = _
      rw [ih has]
      rfl

section Inversions

variable {ε α β : Type} {as : List α} {bs : List β}

/-- A property that every step of a loop keeps under some condition holds at the end if it held at
first and the condition was met every time. -/
theorem foldlM_iff {f : β → α → Except ε β} {p : β → Prop} {q : α → Prop} {b b' : β}
    (hstep : ∀ a ∈ as, ∀ b b', f b a = .ok b' → (p b' ↔ p b ∧ q a)) (h : as.foldlM f b = .ok b') :
    p b' ↔ p b ∧ ∀ a ∈ as, q a := by
  induction as generalizing b with
  | nil =>
    obtain rfl := Except.ok.inj h
    simp
  | cons a as ih =>
    rw [List.foldlM_cons] at h
    obtain ⟨b₁, hfirst, hrest⟩ := exists_of_bind_eq_ok h
    obtain ⟨ha, has⟩ := List.forall_mem_cons.1 hstep
    rw [ih has hrest, ha b b₁ hfirst, List.forall_mem_cons, and_assoc]

/-- A property of all results, by what it says of the items they were made from. -/
theorem forall_mapM_iff {f : α → Except ε β} {p : β → Prop} {q : α → Prop}
    (hstep : ∀ a ∈ as, ∀ b, f a = .ok b → (p b ↔ q a)) (h : as.mapM f = .ok bs) :
    (∀ b ∈ bs, p b) ↔ ∀ a ∈ as, q a := by
  induction as generalizing bs with
  | nil =>
    obtain rfl := Except.ok.inj h
    simp
  | cons a as ih =>
    rw [List.mapM_cons] at h
    obtain ⟨b, hfirst, h⟩ := exists_of_bind_eq_ok h
    obtain ⟨rest, hrest, h⟩ := exists_of_bind_eq_ok h
    obtain rfl := Except.ok.inj h
    obtain ⟨ha, has⟩ := List.forall_mem_cons.1 hstep
    rw [List.forall_mem_cons, List.forall_mem_cons, ha b hfirst, ih has hrest]

/-- What was found of items that were all looked at. -/
theorem exists_of_filterMapM_eq_ok {f : α → Except ε (Option β)} (h : as.filterMapM f = .ok bs) :
    ∃ found, as.mapM f = .ok found ∧ bs = found.filterMap id := by
  induction as generalizing bs with
  | nil => exact ⟨[], rfl, (Except.ok.inj h).symm⟩
  | cons a as ih =>
    rw [List.filterMapM_cons] at h
    obtain ⟨b, hfirst, h⟩ := exists_of_bind_eq_ok h
    cases b with
    | none =>
      obtain ⟨found, hfound, rfl⟩ := ih h
      refine ⟨none :: found, ?_, rfl⟩
      rw [List.mapM_cons, hfirst]
      show (as.mapM f >>= _) = _
      rw [hfound]
      rfl
    | some b =>
      obtain ⟨rest, hrest, h⟩ := exists_of_bind_eq_ok h
      obtain rfl := Except.ok.inj h
      obtain ⟨found, hfound, rfl⟩ := ih hrest
      refine ⟨some b :: found, ?_, rfl⟩
      rw [List.mapM_cons, hfirst]
      show (as.mapM f >>= _) = _
      rw [hfound]
      rfl

/-- A property of everything that was found. -/
theorem forall_filterMapM_iff {f : α → Except ε (Option β)} {p : β → Prop} {q : α → Prop}
    (hstep : ∀ a ∈ as, ∀ found, f a = .ok found → ((∀ b, found = some b → p b) ↔ q a))
    (h : as.filterMapM f = .ok bs) : (∀ b ∈ bs, p b) ↔ ∀ a ∈ as, q a := by
  obtain ⟨found, hfound, rfl⟩ := exists_of_filterMapM_eq_ok h
  rw [← forall_mapM_iff hstep hfound]
  constructor
  · rintro hall _ hmem b rfl
    exact hall b (List.mem_filterMap.2 ⟨some b, hmem, rfl⟩)
  · intro hall b hb
    obtain ⟨_, hmem, hid⟩ := List.mem_filterMap.1 hb
    exact hall _ hmem b hid

end Inversions

/-- A shape that was found was made of a part that was found. -/
theorem Shape.Checked.exists_of_map {α β : Type} {f : α → β} {c : Shape.Checked α} {b : β}
    (h : f <$> c = .good b) : ∃ a, c = .good a ∧ f a = b := by
  cases c with
  | good a => exact ⟨a, rfl, Shape.Checked.good.inj h⟩
  | bad faults => cases h

namespace Shape.Checked

variable {α β : Type} {c : Shape.Checked α} {b : β}

theorem exists_of_seq {f : Shape.Checked (α → β)} (h : f <*> c = .good b) :
    ∃ g a, f = .good g ∧ c = .good a ∧ g a = b := by
  cases f with
  | bad faults => cases c <;> cases h
  | good g =>
    cases c with
    | good a => exact ⟨g, a, rfl, rfl, Shape.Checked.good.inj h⟩
    | bad faults => cases h

theorem exists_of_refine {next : α → Shape.Checked β} (h : c.refine next = .good b) :
    ∃ a, c = .good a ∧ next a = .good b := by
  cases c with
  | good a => exact ⟨a, rfl, h⟩
  | bad faults => cases h

theorem eq_of_under {step : String} {a : α} (h : c.under step = .good a) : c = .good a := by
  cases c with
  | good a' => exact h
  | bad faults => cases h

end Shape.Checked

/-! ## Computations that succeed -/

/-- A computation that succeeds, with a result of which something holds. -/
def Yields {ε α : Type} (x : Except ε α) (p : α → Prop) : Prop := ∃ a, x = .ok a ∧ p a

namespace Yields

variable {ε α β : Type} {x : Except ε α} {p : α → Prop} {q : β → Prop}

theorem pure {a : α} (h : p a) : Yields (Pure.pure a : Except ε α) p := ⟨a, rfl, h⟩

theorem imp {p' : α → Prop} (h : Yields x p) (himp : ∀ a, p a → p' a) : Yields x p' := by
  obtain ⟨a, hx, ha⟩ := h
  exact ⟨a, hx, himp a ha⟩

theorem bind {f : α → Except ε β} (h : Yields x p) (hf : ∀ a, p a → Yields (f a) q) :
    Yields (x >>= f) q := by
  obtain ⟨a, rfl, ha⟩ := h
  exact hf a ha

theorem map {f : α → β} (h : Yields x p) (hf : ∀ a, p a → q (f a)) : Yields (x.map f) q := by
  obtain ⟨a, rfl, ha⟩ := h
  exact ⟨f a, rfl, hf a ha⟩

/-- What every step of a loop keeps holds at its end. -/
theorem foldlM {f : α → β → Except ε α} {bs : List β} {a : α} (ha : p a)
    (hf : ∀ a, ∀ b ∈ bs, p a → Yields (f a b) p) : Yields (bs.foldlM f a) p := by
  induction bs generalizing a with
  | nil => exact pure ha
  | cons b bs ih =>
    rw [List.foldlM_cons]
    obtain ⟨hb, hbs⟩ : Yields (f a b) p ∧ ∀ a, ∀ b ∈ bs, p a → Yields (f a b) p :=
      ⟨hf a b List.mem_cons_self ha, fun a b hb => hf a b (List.mem_cons_of_mem _ hb)⟩
    exact hb.bind fun a ha => ih ha hbs

theorem mapM {f : α → Except ε β} {as : List α} (hf : ∀ a ∈ as, Yields (f a) q) :
    Yields (as.mapM f) fun bs => ∀ b ∈ bs, q b := by
  induction as with
  | nil => exact pure fun b hb => absurd hb List.not_mem_nil
  | cons a as ih =>
    obtain ⟨ha, has⟩ := List.forall_mem_cons.1 hf
    rw [List.mapM_cons]
    exact ha.bind fun b hb => (ih has).bind fun bs hbs => pure (List.forall_mem_cons.2 ⟨hb, hbs⟩)

theorem filterMapM {f : α → Except ε (Option β)} {as : List α}
    (hf : ∀ a ∈ as, Yields (f a) fun found => ∀ b, found = some b → q b) :
    Yields (as.filterMapM f) fun bs => ∀ b ∈ bs, q b := by
  induction as with
  | nil => exact pure fun b hb => absurd hb List.not_mem_nil
  | cons a as ih =>
    obtain ⟨ha, has⟩ := List.forall_mem_cons.1 hf
    rw [List.filterMapM_cons]
    refine ha.bind fun found hfound => ?_
    cases found with
    | none => exact ih has
    | some b =>
      exact (ih has).bind fun bs hbs => pure (List.forall_mem_cons.2 ⟨hfound b rfl, hbs⟩)

end Yields

end Dashboards
