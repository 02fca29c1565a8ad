import Dashboards.Json.Value
import Dashboards.Text.Character

/-!
# Shapes of values

Requests, settings and patch operations arrive as JSON trees. Checking a tree against a declared
shape gives the typed value, or every fault found on the way, each with the place it was found at.
Fields are checked in the order in which the shape declares them.
-/

namespace Dashboards

namespace Shape

/-- Why a value does not have the shape asked for. -/
inductive Cause where
  | missing
  | notRecord (shape : String)
  | notBody
  | notMapping
  | notList
  | notText
  | notEncodable
  | notInteger
  | notWhole
  | unreadableInteger
  | longInteger
  | notFinite
  | notNumber
  | unreadableNumber
  | notBoolean
  | unreadableBoolean
  | below (least : Int)
  | above (greatest : Int)
  | textTooShort (least : Nat)
  | textTooLong (greatest : Nat)
  | tooFewItems (least found : Nat)
  | notVerb
  | unidentifiedKpi
  | notDate
  | unreadableDate (reason : String)
  | dateWithTime
  | brokenJson
  deriving DecidableEq

/-- A number with a noun, in the plural unless it is one. -/
def counted (n : Nat) (noun : String) : String :=
  let ending := if n = 1 then "" else "s"
  s!"{n} {noun}{ending}"

def Cause.message : Cause → String
  | .missing => "Field required"
  | .notRecord shape => s!"Input should be a valid dictionary or instance of {shape}"
  | .notBody => "Input should be a valid dictionary or object to extract fields from"
  | .notMapping => "Input should be a valid dictionary"
  | .notList => "Input should be a valid list"
  | .notText => "Input should be a valid string"
  | .notEncodable =>
    "Input should be a valid string, unable to parse raw data as a unicode string"
  | .notInteger => "Input should be a valid integer"
  | .notWhole => "Input should be a valid integer, got a number with a fractional part"
  | .unreadableInteger => "Input should be a valid integer, unable to parse string as an integer"
  | .longInteger => "Unable to parse input string as an integer, exceeded maximum size"
  | .notFinite => "Input should be a finite number"
  | .notNumber => "Input should be a valid number"
  | .unreadableNumber => "Input should be a valid number, unable to parse string as a number"
  | .notBoolean => "Input should be a valid boolean"
  | .unreadableBoolean => "Input should be a valid boolean, unable to interpret input"
  | .below least => s!"Input should be greater than or equal to {least}"
  | .above greatest => s!"Input should be less than or equal to {greatest}"
  | .textTooShort least => "String should have at least " ++ counted least "character"
  | .textTooLong greatest => "String should have at most " ++ counted greatest "character"
  | .tooFewItems least found =>
    "List should have at least " ++ counted least "item" ++ s!" after validation, not {found}"
  | .notVerb => "Input should be 'add', 'remove', 'replace', 'move', 'copy' or 'test'"
  | .unidentifiedKpi => "Value error, KPI requires 'key', 'column' or 'id'"
  | .notDate => "Input should be a valid date"
  | .unreadableDate reason => s!"Input should be a valid date or datetime, {reason}"
  | .dateWithTime => "Datetimes provided to dates should have zero time - e.g. be exact dates"
  | .brokenJson => "JSON decode error"

/-- A fault and the keys and indices on the way to it. -/
structure Fault where
  place : List String
  cause : Cause
  deriving DecidableEq

/-- The place joined with points, and what is wrong there. -/
def Fault.message (f : Fault) : String := ".".intercalate f.place ++ ": " ++ f.cause.message

/-- The value that a tree of the right shape stands for, or the faults found in the tree. -/
inductive Checked (α : Type) where
  | good (a : α)
  | bad (faults : List Fault)

namespace Checked

variable {α β : Type}

def map (f : α → β) : Checked α → Checked β
  | .good a => .good (f a)
  | .bad faults => .bad faults

/-- Checks both sides and keeps the faults of both, the left ones first. -/
def seq (f : Checked (α → β)) (a : Checked α) : Checked β :=
  match f, a with
  | .good f, .good a => .good (f a)
  | .good _, .bad faults => .bad faults
  | .bad faults, .good _ => .bad faults
  | .bad faults, .bad more => .bad (faults ++ more)

instance : Applicative Checked where
  pure := .good
  map := map
  seq f a := seq f (a ())

/-- A further check of a value that passed all checks before. -/
def refine (c : Checked α) (next : α → Checked β) : Checked β :=
  match c with
  | .good a => next a
  | .bad faults => .bad faults

/-- The same outcome seen from one step further up. -/
def under (step : String) : Checked α → Checked α
  | .good a => .good a
  | .bad faults => .bad (faults.map fun f => { f with place := step :: f.place })

def faults : Checked α → List Fault
  | .good _ => []
  | .bad faults => faults

def toExcept : Checked α → Except (List Fault) α
  | .good a => .ok a
  | .bad faults => .error faults

end Checked

/-- A check of one value. -/
abbrev Reader (α : Type) := Value → Checked α

def fail {α : Type} (cause : Cause) : Checked α := .bad [⟨[], cause⟩]

variable {α : Type}

/-- The field `name`, which has to be there. -/
def required (ms : Members Value) (name : String) (read : Reader α) : Checked α :=
  match ms.get? name with
  | some v => (read v).under name
  | none => .bad [⟨[name], .missing⟩]

/-- The field `name`, or a default when it is absent. -/
def optional (ms : Members Value) (name : String) (default : α) (read : Reader α) : Checked α :=
  match ms.get? name with
  | some v => (read v).under name
  | none => .good default

def nullable (read : Reader α) : Reader (Option α)
  | .null => .good none
  | v => (read v).map some

/-- The field `name`, which may be null or absent. -/
def nullableField (ms : Members Value) (name : String) (read : Reader α) : Checked (Option α) :=
  optional ms name none (nullable read)

/-- Any value. -/
def anything : Reader Value := .good

def record (shape : String) (fields : Members Value → Checked α) : Reader α
  | .obj ms => fields ms
  | _ => fail (.notRecord shape)

/-- The items of a list, each checked under its index. -/
def items (read : Reader α) (index : Nat) : List Value → Checked (List α)
  | [] => .good []
  | v :: rest => List.cons <$> (read v).under (toString index) <*> items read (index + 1) rest

def list (read : Reader α) : Reader (List α)
  | .arr vs => items read 0 vs
  | _ => fail .notList

def nonEmptyList (read : Reader α) : Reader (List α) := fun v =>
  (list read v).refine fun xs => if xs.isEmpty then fail (.tooFewItems 1 0) else .good xs

/-- The members of an object, each checked under its key. -/
def entries (read : Reader α) : List (String × Value) → Checked (Members α)
  | [] => .good []
  | (k, v) :: rest =>
    (fun a more => (k, a) :: more) <$> (read v).under (withoutHalves k) <*> entries read rest

def mapping (read : Reader α) : Reader (Members α)
  | .obj ms => entries read ms
  | _ => fail .notMapping

end Shape

end Dashboards
