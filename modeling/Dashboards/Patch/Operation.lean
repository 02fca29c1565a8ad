import Dashboards.Shape.Scalar

/-!
# Patch operations

An operation is a verb, the pointer text it is aimed at, a value and, for moves and copies, the
pointer text of its source. What an operation is given in is read as a shape; what it is sent in
leaves out the value where the verb has no use for one.
-/

namespace Dashboards

inductive Verb where
  | add
  | remove
  | replace
  | move
  | copy
  | test
  deriving DecidableEq, Repr

namespace Verb

def text : Verb → String
  | .add => "add"
  | .remove => "remove"
  | .replace => "replace"
  | .move => "move"
  | .copy => "copy"
  | .test => "test"

def all : List Verb := [.add, .remove, .replace, .move, .copy, .test]

def ofText? (s : String) : Option Verb := all.find? fun v => v.text = s

/-- Whether an operation with this verb uses its value. -/
def takesValue : Verb → Bool
  | .add | .replace | .test => true
  | _ => false

def read : Shape.Reader Verb
  | .str s =>
    (Shape.encodable s).refine fun s =>
      match ofText? s with
      | some v => .good v
      | none => Shape.fail .notVerb
  | _ => Shape.fail .notVerb

end Verb

structure Operation where
  verb : Verb
  path : String
  value : Value
  source : Option String

namespace Operation

/-- The source is given under `from`, or under `from_` when there is no `from`. -/
def readSource (ms : Members Value) : Shape.Checked (Option String) :=
  Shape.nullableField ms (if ms.contains "from" then "from" else "from_") Shape.text

def read : Shape.Reader Operation :=
  Shape.record "PatchOperation" fun ms =>
    Operation.mk <$> Shape.required ms "op" Verb.read <*> Shape.required ms "path" Shape.text <*>
      Shape.optional ms "value" .null Shape.anything <*> readSource ms

/-- The form in which an operation is sent. -/
def toWire (op : Operation) : Value :=
  .obj ([("op", .str op.verb.text), ("path", .str op.path)] ++
    (if op.verb.takesValue then [("value", op.value)] else []) ++
    match op.source with
    | some s => [("from", .str s)]
    | none => [])

end Operation

end Dashboards
