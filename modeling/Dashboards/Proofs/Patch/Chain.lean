import Dashboards.Patch.Run

/-!
# A patch as a chain of documents

Under a policy a patch is looked at twice: the checks walk over one copy of the document, and the
application over another.  On a patch that is accepted the two walks meet the same documents, so a
patch is accepted exactly when there is a chain of documents from the given one to the result in
which every operation is carried out on the document that it was checked against.
-/

namespace Dashboards

/-! ## 1. One operation -/

theorem Operation.apply_eq_ok_iff {op : Operation} {d e : Value} :
    op.apply d = .ok e ↔ op.attempt d = .done e := by
  rcases h : op.attempt d with ⟨r, f⟩
  cases f <;> simp [Operation.apply, Patch.Attempt.toExcept, Patch.Attempt.done, h]

theorem Operation.apply_eq_error_iff {op : Operation} {d : Value} {f : Patch.Fault} :
    op.apply d = .error f ↔ (op.attempt d).fault = some f := by
  rcases h : op.attempt d with ⟨r, g⟩
  cases g <;> simp [Operation.apply, Patch.Attempt.toExcept, h]

/-- The copy that the checks walk over follows an operation that can be carried out. -/
theorem Operation.advance_of_apply {op : Operation} {d e : Value} (h : op.apply d = .ok e) :
    op.advance d = e := by
  rw [Operation.advance, Operation.apply_eq_ok_iff.1 h]
  rfl

theorem Policy.unfinished_of_apply {op : Operation} {d e : Value} (h : op.apply d = .ok e)
    (n : Nat) : Policy.unfinished op d n = [] := by
  rw [Policy.unfinished, Operation.apply_eq_ok_iff.1 h]
  rfl

/-- The position of an operation is only reported, it decides nothing. -/
theorem Policy.checkOperation_eq_nil_congr {policy : Policy} {op : Operation} {d : Value}
    (m n : Option Nat) :
    policy.checkOperation op d m = [] ↔ policy.checkOperation op d n = [] := by
  unfold Policy.checkOperation
  rw [List.map_eq_nil_iff, List.map_eq_nil_iff]

namespace Patch

/-! ## 2. Chains -/

/-- The operations lead from one document to another, and the policy has nothing against any of them
on the document that it is carried out on. -/
inductive Chain (policy : Policy) : Value → List Operation → Value → Prop
  | nil (d : Value) : Chain policy d [] d
  | cons {d d' e : Value} {op : Operation} {ops : List Operation}
      (checked : policy.checkOperation op d none = []) (applied : op.apply d = .ok d')
      (rest : Chain policy d' ops e) : Chain policy d (op :: ops) e

/-- Both walks come to their ends without an issue exactly along a chain. -/
theorem chain_iff {policy : Policy} {d e : Value} {ops : List Operation} (m n : Nat) :
    Chain policy d ops e ↔ policy.checkInTurn m d ops = [] ∧ applyAll n d ops = .ok e := by
  induction ops generalizing d m n with
  | nil =>
    constructor
    · rintro ⟨⟩
      exact ⟨rfl, rfl⟩
    · rintro ⟨-, h⟩
      obtain rfl : d = e := by simpa [applyAll] using h
      exact .nil d
  | cons op ops ih =>
    constructor
    · rintro (_ | ⟨checked, applied, rest⟩)
      obtain ⟨hcheck, happly⟩ := (ih (m + 1) (n + 1)).1 rest
      refine ⟨?_, ?_⟩
      · rw [Policy.checkInTurn, (Policy.checkOperation_eq_nil_congr none _).1 checked,
          Policy.unfinished_of_apply applied, Operation.advance_of_apply applied, hcheck]
        rfl
      · rw [applyAll, applied]
        exact happly
    · rintro ⟨hcheck, happly⟩
      rw [applyAll] at happly
      split at happly
      · rename_i d' applied
        -- The operation was carried out, so the checks went on from the same document.
        rw [Policy.checkInTurn, Operation.advance_of_apply applied,
          Policy.unfinished_of_apply applied, List.append_nil, List.append_eq_nil_iff] at hcheck
        exact .cons ((Policy.checkOperation_eq_nil_congr _ none).1 hcheck.1) applied
          ((ih (m + 1) (n + 1)).2 ⟨hcheck.2, happly⟩)
      · simp at happly

theorem applyFreely_eq {d : Value} {ops : List Operation} :
    ((applyFreely d ops).applied = true ∧ applyAll 0 d ops = .ok (applyFreely d ops).document) ∨
      ((applyFreely d ops).applied = false ∧ ∃ s, applyAll 0 d ops = .error s) := by
  unfold applyFreely
  split
  · exact .inl ⟨rfl, ‹_›⟩
  · exact .inr ⟨rfl, _, ‹_›⟩

/-- A patch is accepted with a result exactly when a chain leads to it and the comparison of the two
documents finds nothing. -/
theorem applyUnder_iff {policy : Policy} {d e : Value} {ops : List Operation} :
    ((applyUnder policy d ops).applied = true ∧ (applyUnder policy d ops).document = e) ↔
      Chain policy d ops e ∧ policy.checkDocuments d e = [] := by
  rw [chain_iff 0 0, applyUnder]
  have free := @applyFreely_eq d ops
  split
  · rename_i hcheck
    obtain ⟨happlied, hall⟩ | ⟨happlied, s, hall⟩ := free
    · simp only [happlied, if_true, hcheck, hall, true_and, Except.ok.injEq]
      split
      · rename_i hdocs
        constructor
        · rintro ⟨-, rfl⟩
          exact ⟨rfl, hdocs⟩
        · rintro ⟨rfl, -⟩
          exact ⟨happlied, rfl⟩
      · rename_i issues hne
        constructor
        · rintro ⟨h, -⟩
          simp [rejected] at h
        · rintro ⟨rfl, h⟩
          exact absurd h hne
    · simp [happlied, hall]
  · rename_i issues hne
    constructor
    · rintro ⟨h, -⟩
      simp [rejected] at h
    · rintro ⟨⟨h, -⟩, -⟩
      exact absurd h hne

/-- A chain, written out as the sequence of its documents. -/
theorem chain_iff_exists_documents {policy : Policy} {d e : Value} {ops : List Operation} :
    Chain policy d ops e ↔
      ∃ ds : Nat → Value, ds 0 = d ∧ ds ops.length = e ∧
        ∀ (i : Nat) (hi : i < ops.length),
          ops[i].apply (ds i) = .ok (ds (i + 1)) ∧ policy.checkOperation ops[i] (ds i) none = [] := by
  induction ops generalizing d with
  | nil =>
    constructor
    · rintro ⟨⟩
      exact ⟨fun _ => e, rfl, rfl, fun i hi => absurd hi (Nat.not_lt_zero i)⟩
    · rintro ⟨ds, rfl, rfl, -⟩
      exact .nil _
  | cons op ops ih =>
    constructor
    · rintro (_ | ⟨checked, applied, rest⟩)
      obtain ⟨ds, hfirst, hlast, hsteps⟩ := ih.1 rest
      -- The given document is put in front of the sequence of the rest.
      refine ⟨fun i => i.casesOn d ds, rfl, hlast, fun i hi => ?_⟩
      cases i with
      | zero =>
        subst hfirst
        exact ⟨applied, checked⟩
      | succ i => exact hsteps i (Nat.lt_of_succ_lt_succ hi)
    · rintro ⟨ds, rfl, hlast, hsteps⟩
      obtain ⟨applied, checked⟩ := hsteps 0 (Nat.succ_pos _)
      exact .cons checked applied
        (ih.2 ⟨fun i => ds (i + 1), rfl, hlast, fun i hi => hsteps (i + 1) (Nat.succ_lt_succ hi)⟩)

/-- What is checked is what is applied: a patch is accepted with a result exactly when a sequence of
documents leads from the given one to the result, every operation passes the policy on a document of
the sequence and turns it into the next, and the comparison of the first and the last finds
nothing. -/
theorem apply_iff_checked_sequence (policy : Policy) (d e : Value) (ops : List Operation) :
    ((apply (some policy) d ops).applied = true ∧ (apply (some policy) d ops).document = e) ↔
      (∃ ds : Nat → Value, ds 0 = d ∧ ds ops.length = e ∧
        ∀ (i : Nat) (hi : i < ops.length),
          ops[i].apply (ds i) = .ok (ds (i + 1)) ∧
            policy.checkOperation ops[i] (ds i) none = []) ∧
      policy.checkDocuments d e = [] := by
  rw [← chain_iff_exists_documents]
  exact applyUnder_iff

end Patch

end Dashboards
