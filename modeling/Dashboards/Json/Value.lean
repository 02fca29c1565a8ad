import Dashboards.Json.Members
import Dashboards.Json.Number

/-!
# JSON trees

The document of a dashboard, the value of a patch operation and a row of data are all JSON trees.
Integers and floats stay apart, and objects keep their members in order of arrival.
-/

namespace Dashboards

/-- A JSON tree. -/
inductive Value where
  | null
  | bool (b : Bool)
  | num (n : Number)
  | str (s : String)
  | arr (items : List Value)
  | obj (members : List (String × Value))

namespace Value

instance : Inhabited Value := ⟨.null⟩

def ofInt (n : Int) : Value := .num (.int n)

def ofNat (n : Nat) : Value := .num (.int n)

def ofFloat (x : Float) : Value := .num (.float x)

def ofStrings (ss : List String) : Value := .arr (ss.map .str)

/-- `null` for nothing. -/
def ofOption {α : Type} (f : α → Value) : Option α → Value
  | none => .null
  | some a => f a

def isNull : Value → Bool
  | .null => true
  | _ => false

def isObject : Value → Bool
  | .obj _ => true
  | _ => false

def members? : Value → Option (Members Value)
  | .obj ms => some ms
  | _ => none

def items? : Value → Option (List Value)
  | .arr xs => some xs
  | _ => none

def str? : Value → Option String
  | .str s => some s
  | _ => none

/-- The member of an object under `key`; a value of another kind has no members. -/
def member? (v : Value) (key : String) : Option Value :=
  match v with
  | .obj ms => Members.get? ms key
  | _ => none

/-- The name of a value's kind as messages give it. -/
def kindName : Value → String
  | .null => "NoneType"
  | .bool _ => "bool"
  | .num (.int _) => "int"
  | .num _ => "float"
  | .str _ => "str"
  | .arr _ => "list"
  | .obj _ => "dict"

/-- Whether a value counts as present and non-empty: not null, false, zero or an empty text or
collection. -/
def isTruthy : Value → Bool
  | .null => false
  | .bool b => b
  | .num n => !n.same (.int 0)
  | .str s => s ≠ ""
  | .arr xs => !xs.isEmpty
  | .obj ms => !ms.isEmpty

end Value

end Dashboards
