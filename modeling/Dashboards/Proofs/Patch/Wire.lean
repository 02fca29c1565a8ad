import Mathlib.Data.List.Forall2
import Dashboards.Patch.Run
import Dashboards.Service.Body

/-!
# Patches as they are sent

The form in which an operation is sent leaves out the value where the verb has no use for one, so an
operation is read back without it.  Nothing looks at a value that is left out: neither the checks of the
policy nor the application of the operation.  So a patch that is sent and read back is the same patch.
-/

namespace Dashboards

variable {op op' : Operation} {policy : Policy} {d : Value} {ops ops' : List Operation}

/-! ## 1. Operations -/

theorem Verb.read_text (v : Verb) : read (.str v.text) = .good v := by cases v <;> rfl

namespace Operation

/-- The operation without a value that its verb has no use for. -/
def stripped (op : Operation) : Operation :=
  { op with value := if op.verb.takesValue then op.value else .null }

@[simp] theorem stripped_path (op : Operation) : op.stripped.path = op.path := rfl

/-- The wire form is read back as the operation without its idle value. -/
theorem read_toWire (op : Operation) : read op.toWire = .good op.stripped := by
  obtain ⟨verb, path, value, source⟩ := op
  have hverb (ms : Members Value) :
      Shape.required (("op", .str verb.text) :: ms) "op" Verb.read = .good verb := by
    simp [Shape.required, Members.get?, Verb.read_text, Shape.Checked.under]
  simp only [toWire, read, Shape.record, List.cons_append, List.nil_append, hverb]
  -- Whether there is a value member depends on the verb, and whether there is a source on the source.
  cases verb <;> cases source <;> rfl

/-- Carrying out an operation does not look at an idle value. -/
@[simp] theorem attempt_stripped (op : Operation) (d : Value) :
    op.stripped.attempt d = op.attempt d := by
  obtain ⟨verb, path, value, source⟩ := op
  cases verb <;> rfl

@[simp] theorem apply_stripped (op : Operation) (d : Value) : op.stripped.apply d = op.apply d := by
  rw [Operation.apply, Operation.apply, attempt_stripped]

@[simp] theorem advance_stripped (op : Operation) (d : Value) :
    op.stripped.advance d = op.advance d := by
  rw [advance, advance, attempt_stripped]

end Operation

namespace Policy

/-- The guardrails look at the value of an addition and of a replacement alone. -/
theorem guardrailObjections_stripped (op : Operation) (d : Value) :
    policy.guardrailObjections op.stripped d = policy.guardrailObjections op d := by
  obtain ⟨verb, path, value, source⟩ := op
  cases verb <;> rfl

theorem pathObjections_stripped (op : Operation) :
    policy.pathObjections op.stripped = policy.pathObjections op := rfl

@[simp] theorem checkOperation_stripped (op : Operation) (d : Value) (position : Option Nat) :
    policy.checkOperation op.stripped d position = policy.checkOperation op d position := by
  rw [checkOperation, checkOperation, pathObjections_stripped, guardrailObjections_stripped]

@[simp] theorem unfinished_stripped (op : Operation) (d : Value) (position : Nat) :
    unfinished op.stripped d position = unfinished op d position := by
  rw [unfinished, unfinished, Operation.attempt_stripped, Operation.stripped_path]

/-! ## 2. Patches -/

theorem checkInTurn_map_stripped (position : Nat) (d : Value) (ops : List Operation) :
    policy.checkInTurn position d (ops.map Operation.stripped) =
      policy.checkInTurn position d ops := by
  induction ops generalizing position d with
  | nil => rfl
  | cons op rest ih =>
    rw [List.map_cons, checkInTurn, checkInTurn, checkOperation_stripped, unfinished_stripped,
      Operation.advance_stripped, ih]

end Policy

namespace Patch

theorem applyAll_map_stripped (position : Nat) (d : Value) (ops : List Operation) :
    applyAll position d (ops.map Operation.stripped) = applyAll position d ops := by
  induction ops generalizing position d with
  | nil => rfl
  | cons op rest ih =>
    rw [List.map_cons, applyAll, applyAll, Operation.apply_stripped]
    cases op.apply d with
    | ok e => exact ih (position + 1) e
    | error fault => rfl

theorem outcomes_map_stripped (ops : List Operation) (status : Nat → Status) :
    outcomes (ops.map Operation.stripped) status = outcomes ops status := by
  unfold outcomes
  rw [List.zipIdx_map, List.map_map]
  rfl

theorem applyFreely_map_stripped (d : Value) (ops : List Operation) :
    applyFreely d (ops.map Operation.stripped) = applyFreely d ops := by
  simp only [applyFreely, stopped, applyAll_map_stripped, outcomes_map_stripped]

/-- Idle values make no difference to a patch. -/
theorem apply_map_stripped (policy : Option Policy) (d : Value) (ops : List Operation) :
    apply policy d (ops.map Operation.stripped) = apply policy d ops := by
  cases policy with
  | none => exact applyFreely_map_stripped d ops
  | some p =>
    simp only [apply, applyUnder, rejected, Policy.checkInTurn_map_stripped,
      applyFreely_map_stripped, outcomes_map_stripped]

end Patch

/-! ## 3. Sending and reading back -/

/-- A list of wire forms is read item by item, wherever it starts. -/
theorem Shape.items_toWire (index : Nat) (ops : List Operation) :
    Shape.items Operation.read index (ops.map Operation.toWire) =
      .good (ops.map Operation.stripped) := by
  induction ops generalizing index with
  | nil => rfl
  | cons op rest ih =>
    rw [List.map_cons, Shape.items, Operation.read_toWire, ih]
    rfl

namespace Patch

/-- The wire forms of all operations can be read, and the patch that is read comes to the same result on
every document, under every policy and under none. -/
theorem apply_of_reread (ops : List Operation) :
    ∃ reread, Shape.list Operation.read (.arr (ops.map Operation.toWire)) = .good reread ∧
      List.Forall₂ (fun op again => Operation.read op.toWire = .good again) ops reread ∧
      ∀ (policy : Option Policy) (d : Value), apply policy d reread = apply policy d ops := by
  refine ⟨ops.map Operation.stripped, Shape.items_toWire 0 ops, ?_, fun policy d =>
    apply_map_stripped policy d ops⟩
  rw [List.forall₂_map_right_iff, List.forall₂_same]
  exact fun op _ => op.read_toWire

end Patch

end Dashboards
