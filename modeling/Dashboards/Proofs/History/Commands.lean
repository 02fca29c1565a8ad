import Dashboards.Proofs.History.Ledger

/-!
# Commands to an archive

An archive is run by commands, one after the other.  A dashboard is opened before anything else is
asked about it, so a command on a dashboard that does not exist comes to its end there.  This file
spells out what a registry makes of the command's conversation, question by question.
-/

namespace Dashboards

namespace History

/-- What an archive is asked to do.  The documents that are handed over are objects. -/
inductive Command where
  | create (id : Option String) (doc : Document) (author note : Option String)
  | find (id : String)
  | current (id : String)
  | version (id : String) (number : Int)
  | newest (id : String) (limit : Int)
  | commit (id : String) (expected : Int) (doc : Document) (author note : Option String)
  | rollback (id : String) (target : Int) (author : Option String)

/-- What a command comes to when it succeeds: the id of a new dashboard, one record or several. -/
@[reducible] def Command.Result : Command → Type
  | .create .. => String
  | .find _ => Unit
  | .newest .. => List Record
  | .current _ | .version .. | .commit .. | .rollback .. => Record

/-- The conversation of a command. -/
def Command.conversation : (c : Command) → Conversation c.Result
  | .create id doc author note => Conversation.create id ⟨.obj doc, author, note⟩
  | .find id => Conversation.find id
  | .current id => do Conversation.find id; Conversation.current id
  | .version id number => do Conversation.find id; Conversation.version id number
  | .newest id limit => do Conversation.find id; Conversation.newest id limit
  | .commit id expected doc author note => do
    Conversation.find id
    Conversation.put id expected ⟨.obj doc, author, note⟩
  | .rollback id target author => do
    Conversation.find id
    Conversation.rollback id target author

/-- A conversation that goes on stops at the first fault, whoever answers. -/
theorem Conversation.run_bind {τ α β : Type} (respond : (q : Question) → τ → Answer q × τ)
    (c : Conversation α) (f : α → Conversation β) (s : τ) :
    Dialogue.run respond (c >>= f).run s =
      match Dialogue.run respond c.run s with
      | (.ok a, s') => Dialogue.run respond (f a).run s'
      | (.error e, s') => (.error e, s') := by
  show Dialogue.run respond (c.run >>= ExceptT.bindCont f) s = _
  rw [Dialogue.run_bind]
  rcases Dialogue.run respond c.run s with ⟨_ | a, s'⟩ <;> rfl

namespace Registry

/-- Carries out a command. -/
def execute (c : Command) (r : Registry) : Except Fault c.Result × Registry :=
  r.converse c.conversation

/-- The registry after some commands, whether they succeeded or not. -/
def after (commands : List Command) (r : Registry) : Registry :=
  commands.foldl (fun r c => (r.execute c).2) r

/-- The id under which a dashboard is created: the one given, unless it is empty. -/
def chosen (r : Registry) : Option String → String
  | none | some "" => idText r.minted
  | some id => id

/-! ## 1. Conversations with a registry -/

variable {r : Registry} {id : String} {records : List Record}

/-- A conversation that goes on stops at the first fault. -/
theorem converse_bind {α β : Type} (c : Conversation α) (f : α → Conversation β) (r : Registry) :
    r.converse (c >>= f) =
      match r.converse c with
      | (.ok a, r') => r'.converse (f a)
      | (.error e, r') => (.error e, r') := by
  rw [Registry.converse, Conversation.run_bind, Registry.converse]
  rcases Dialogue.run respond c.run r with ⟨_ | a, r'⟩ <;> rfl

theorem converse_find (h : r.histories.get? id = some records) :
    r.converse (Conversation.find id) = (.ok (), r) := by
  show ((r.find id).map fun _ => (), r) = _
  rw [find_of_kept h]
  rfl

/-- A dashboard that exists is opened without anything being changed. -/
theorem converse_opened {α : Type} (h : r.histories.get? id = some records) (c : Conversation α) :
    r.converse (do Conversation.find id; c) = r.converse c := by
  rw [converse_bind, converse_find h]

theorem converse_unopened {α : Type} (h : r.histories.get? id = none) (c : Conversation α) :
    r.converse (do Conversation.find id; c) = (.error (.unknownDashboard id), r) := by
  have hfind : r.converse (Conversation.find id) = (.error (.unknownDashboard id), r) := by
    show ((r.find id).map fun _ => (), r) = _
    rw [Registry.find, h]
    rfl
  rw [converse_bind, hfind]

theorem chosen_of_nonempty (h : id ≠ "") : r.chosen (some id) = id := by
  unfold chosen
  split
  · contradiction
  · exact absurd (Option.some.inj ‹_›) h
  · exact (Option.some.inj ‹_›).symm

theorem converse_question_create (first : Draft) (r : Registry) :
    r.converse (do ExceptT.mk (Dialogue.question (Question.create id first)); pure id) =
      ((r.create id first).1.map fun _ => id, (r.create id first).2) := by
  have hask : r.converse (ExceptT.mk (Dialogue.question (Question.create id first))) =
      r.create id first := rfl
  rw [converse_bind, hask]
  rcases r.create id first with ⟨_ | _, r'⟩ <;> rfl

/-- A dashboard is created under the id that is chosen for it; to draw one touches no history. -/
theorem converse_create (given : Option String) (first : Draft) (r : Registry) :
    ∃ r₁ : Registry, r₁.histories = r.histories ∧
      r.converse (Conversation.create given first) =
        ((r₁.create (r.chosen given) first).1.map fun _ => r.chosen given,
          (r₁.create (r.chosen given) first).2) := by
  cases given with
  | none => exact ⟨r.freshId.2, rfl, converse_question_create first r.freshId.2⟩
  | some id =>
    by_cases hempty : id = ""
    · subst hempty
      exact ⟨r.freshId.2, rfl, converse_question_create first r.freshId.2⟩
    · refine ⟨r, rfl, ?_⟩
      rw [chosen_of_nonempty hempty, ← converse_question_create, Conversation.create]
      · rfl
      · exact hempty

end Registry

end History

end Dashboards
