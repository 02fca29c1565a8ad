/-!
# Dialogues

A dialogue is a computation that asks questions of a kind `Q` and goes on with the answers; what it
asks next may depend on every answer so far. Who answers is left open: a state that changes with
each question, or another dialogue that is carried on with somebody else. Several dialogues may be
interleaved at their questions.
-/

namespace Dashboards

/-- A result, or a question together with what follows each answer to it. -/
inductive Dialogue {Q : Type} (Answer : Q → Type) (α : Type) where
  | done (a : α)
  | ask (q : Q) (next : Answer q → Dialogue Answer α)

namespace Dialogue

variable {Q : Type} {Answer : Q → Type} {P : Type} {Reply : P → Type} {α β σ : Type}

/-- Goes on with a second dialogue once the first one is done. -/
def bind : Dialogue Answer α → (α → Dialogue Answer β) → Dialogue Answer β
  | done a, f => f a
  | ask q next, f => ask q fun r => bind (next r) f

instance : Monad (Dialogue Answer) where
  pure := done
  bind := bind

/-- The dialogue that asks one question and ends with its answer. -/
def question (q : Q) : Dialogue Answer (Answer q) := ask q done

/-- Carries a dialogue on with a state that answers. -/
def run (respond : (q : Q) → σ → Answer q × σ) : Dialogue Answer α → σ → α × σ
  | done a, s => (a, s)
  | ask q next, s => run respond (next (respond q s).1) (respond q s).2

/-- Has every question answered by a dialogue with somebody else. -/
def relay (through : (q : Q) → Dialogue Reply (Answer q)) : Dialogue Answer α → Dialogue Reply α
  | done a => done a
  | ask q next => bind (through q) fun r => relay through (next r)

@[simp] theorem pure_eq_done (a : α) : (pure a : Dialogue Answer α) = done a := rfl

@[simp] theorem bind_done (a : α) (f : α → Dialogue Answer β) : done a >>= f = f a := rfl

@[simp] theorem bind_ask (q : Q) (next : Answer q → Dialogue Answer α) (f : α → Dialogue Answer β) :
    ask q next >>= f = ask q fun r => next r >>= f := rfl

@[simp] theorem run_done (respond : (q : Q) → σ → Answer q × σ) (a : α) (s : σ) :
    run respond (done a) s = (a, s) := rfl

@[simp] theorem run_ask (respond : (q : Q) → σ → Answer q × σ) (q : Q)
    (next : Answer q → Dialogue Answer α) (s : σ) :
    run respond (ask q next) s = run respond (next (respond q s).1) (respond q s).2 := rfl

/-- Running two dialogues in a row leaves to the second the state that the first one ended with. -/
theorem run_bind (respond : (q : Q) → σ → Answer q × σ) (d : Dialogue Answer α)
    (f : α → Dialogue Answer β) (s : σ) :
    run respond (d >>= f) s = run respond (f (run respond d s).1) (run respond d s).2 := by
  induction d generalizing s with
  | done a => rfl
  | ask q next ih => exact ih _ _

end Dialogue

end Dashboards
