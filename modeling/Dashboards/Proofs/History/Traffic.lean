import Dashboards.History.Editing
import Dashboards.Proofs.History.Registry

/-!
# Clients at one registry

Any number of clients edit one dashboard at the same time.  A client carries on the conversation of
its edit, and the registry answers one question of one client at a time, in any order.  This file
fixes the states that such traffic can reach, and spells out the conversations: a commit reads the
current record and then swaps, a rollback reads twice before it swaps.
-/

namespace Dashboards

namespace History

/-- What a client wants done to a dashboard. -/
inductive Edit where
  | commit (expected : Int) (ops : List Operation) (author note : Option String)
  | rollback (target : Int) (author : Option String)

/-- The conversation of an edit, which ends with the record that was stored. -/
def Edit.conversation (rules : EditRules) (id : String) : Edit → Conversation Record
  | .commit expected ops author note => do
    let (committed, _) ← Conversation.commit rules id expected ops author note
    pure committed
  | .rollback target author => Conversation.rollback id target author

/-- A client: its edit, and what is left of the conversation. -/
structure Client where
  edit : Edit
  rest : Dialogue Answer (Except Fault Record)

/-- The record that a conversation has come to, once it has succeeded. -/
def success? : Dialogue Answer (Except Fault Record) → Option Record
  | .done (.ok rec) => some rec
  | _ => none

/-- A registry and the clients that talk to it. -/
structure Traffic where
  registry : Registry
  clients : List Client

namespace Traffic

/-- The history of a dashboard; there is none before it is created. -/
def records (w : Traffic) (id : String) : List Record := (w.registry.histories.get? id).getD []

def edit? (w : Traffic) (i : Nat) : Option Edit := w.clients[i]?.map (·.edit)

/-- The record that a client's edit has stored, once it has succeeded. -/
def stored? (w : Traffic) (i : Nat) : Option Record := w.clients[i]?.bind fun c => success? c.rest

/-- A client comes in; the registry has not heard of it yet. -/
def join (rules : EditRules) (id : String) (edit : Edit) (w : Traffic) : Traffic :=
  { w with clients := w.clients ++ [⟨edit, (edit.conversation rules id).run⟩] }

/-- The registry answers the next question of a client; a client that is done asks none. -/
def advance (i : Nat) (w : Traffic) : Traffic :=
  match w.clients[i]? with
  | some ⟨edit, .ask q next⟩ =>
    ⟨(Registry.respond q w.registry).2,
      w.clients.set i ⟨edit, next (Registry.respond q w.registry).1⟩⟩
  | _ => w

/-- The states of the traffic at a dashboard that was created from a draft: clients join, and their
questions are answered, in any order. -/
inductive Reachable (rules : EditRules) (id : String) (first : Draft) : Traffic → Prop
  | created {r₀ r : Registry} (h : r₀.create id first = (.ok (), r)) :
      Reachable rules id first ⟨r, []⟩
  | joined {w : Traffic} (edit : Edit) (h : Reachable rules id first w) :
      Reachable rules id first (w.join rules id edit)
  | advanced {w : Traffic} (i : Nat) (h : Reachable rules id first w) :
      Reachable rules id first (w.advance i)

end Traffic

/-! ## Conversations, question by question -/

/-- The last question of an edit, whose answer is the result. -/
def swap (id : String) (v : Int) (next : Draft) : Dialogue Answer (Except Fault Record) :=
  .ask (.commit id v next) .done

/-- How a commit goes on once it has read the current record. -/
def commitOn (rules : EditRules) (id : String) (expected : Int) (ops : List Operation)
    (author note : Option String) : Except Fault Record → Dialogue Answer (Except Fault Record)
  | .error f => .done (.error f)
  | .ok record =>
    match Conversation.approve rules record expected ops with
    | .error f => .done (.error f)
    | .ok (new, _) => swap id record.version ⟨new, author, note⟩

/-- How a rollback goes on once it has read the earlier and the current record. -/
def rollbackOn (id : String) (target : Int) (author : Option String) (earlier : Record) :
    Except Fault Record → Dialogue Answer (Except Fault Record)
  | .error f => .done (.error f)
  | .ok latest =>
    swap id latest.version ⟨.obj earlier.document, author, some (rollbackNote target)⟩

/-- How a rollback goes on once it has read the earlier record. -/
def rollbackFrom (id : String) (target : Int) (author : Option String) :
    Except Fault Record → Dialogue Answer (Except Fault Record)
  | .error f => .done (.error f)
  | .ok earlier => .ask (.current id) (rollbackOn id target author earlier)

variable {rules : EditRules} {id : String}

/-- Reading never ends an edit with success. -/
theorem success?_commitOn (expected : Int) (ops : List Operation) (author note : Option String)
    (answer : Except Fault Record) :
    success? (commitOn rules id expected ops author note answer) = none := by
  cases answer with
  | error f => rfl
  | ok record =>
    rw [commitOn]
    split <;> rfl

theorem Edit.run_commit (expected : Int) (ops : List Operation) (author note : Option String) :
    ((Edit.commit expected ops author note).conversation rules id).run =
      .ask (.current id) (commitOn rules id expected ops author note) := by
  show Dialogue.ask (Question.current id) _ = _
  congr 1
  funext answer
  cases answer with
  | error f => rfl
  | ok record =>
    rw [commitOn]
    dsimp only [Dialogue.bind, ExceptT.bindCont]
    cases Conversation.approve rules record expected ops with
    | error f => rfl
    | ok approved =>
      show Dialogue.ask (Question.commit id record.version _) _ = Dialogue.ask _ _
      congr 1
      funext answer
      cases answer <;> rfl

theorem Edit.run_rollback (target : Int) (author : Option String) :
    ((Edit.rollback target author).conversation rules id).run =
      .ask (.version id target) (rollbackFrom id target author) := by
  show Dialogue.ask (Question.version id target) _ = _
  congr 1
  funext answer
  cases answer with
  | error f => rfl
  | ok earlier =>
    show Dialogue.ask (Question.current id) _ = Dialogue.ask _ _
    congr 1
    funext answer
    cases answer <;> rfl

end History

end Dashboards
