import Dashboards.History.Editing
import Dashboards.Proposal.Completion

/-!
# Errands

While it answers a request, the service asks an archive and a collaborator. What it asks and what it
makes of the answers is a dialogue; who answers is left open.
-/

namespace Dashboards

namespace Service

/-- What the service asks of others. -/
inductive Errand where
  | archive (q : History.Question)
  | collaborator (r : Completion.Request)

/-- What comes back from an errand. -/
@[reducible] def Errand.Reply : Errand → Type
  | .archive q => History.Answer q
  | .collaborator _ => Completion.Reply

/-- A dialogue with the archive and the collaborator. -/
abbrev Handling (α : Type) := Dialogue Errand.Reply α

/-- A dialogue that ends early with a failure. -/
abbrev Attempt (α : Type) := ExceptT Failure (Dialogue Errand.Reply) α

variable {α : Type}

/-- Has a conversation with the archive. -/
def withArchive (c : History.Conversation α) : Handling (Except History.Fault α) :=
  Dialogue.relay (fun q => Dialogue.question (Errand.archive q)) c.run

/-- Has an exchange with the collaborator. -/
def withCollaborator (e : Completion.Exchange α) : Handling α :=
  Dialogue.relay (fun r => Dialogue.question (Errand.collaborator r)) e

/-- The failure of a request for a reason that is not the caller's to know. -/
def internalFailure : Failure := ⟨.internalError, "Internal server error", none⟩

/-- The failure that a fault of the archive is reported as. -/
def failureOf (f : History.Fault) : Failure := f.failure?.getD internalFailure

/-- Has a conversation with the archive, whose faults are failures. -/
def ofArchive (c : History.Conversation α) : Attempt α :=
  ExceptT.mk ((Except.mapError failureOf) <$> withArchive c)

/-- Has an exchange with the collaborator, whose faults are failures. -/
def ofCollaborator (e : Completion.Exchange (Except Completion.Fault α)) : Attempt α :=
  ExceptT.mk ((Except.mapError fun f => f.failure?.getD internalFailure) <$> withCollaborator e)

/-- Goes on with a result that is there already. -/
def ofExcept (e : Except Failure α) : Attempt α := ExceptT.mk (pure e)

end Service

end Dashboards
