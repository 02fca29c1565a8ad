import Dashboards.Json.Value

/-!
# Two equalities of JSON trees

`Value.jsonEqual` is the equality of patch tests: booleans and numbers are different things.
`Value.looseEqual` is the equality of the blocked-section check: there `true` counts as `1` and
`false` as `0`. Both compare numbers by exact value, arrays item by item, and objects member by
member whatever the order. A NaN equals nothing in a patch test; in the blocked-section check it
equals its own copies.
-/

namespace Dashboards

namespace Value

mutual

/-- Deep equality, given the equality of the values that are not collections. -/
def alike (scalar : Value → Value → Bool) : Value → Value → Bool
  | .arr xs, .arr ys => alikeItems scalar xs ys
  | .arr _, _ => false
  | .obj ms, .obj ns => ms.length == ns.length && alikeMembers scalar ms ns
  | .obj _, _ => false
  | a, b => scalar a b
termination_by structural a => a

def alikeItems (scalar : Value → Value → Bool) : List Value → List Value → Bool
  | [], [] => true
  | x :: xs, y :: ys => alike scalar x y && alikeItems scalar xs ys
  | _, _ => false
termination_by structural xs => xs

def alikeMembers (scalar : Value → Value → Bool) : List (String × Value) → Members Value → Bool
  | [], _ => true
  | (k, v) :: rest, ns =>
    (match ns.get? k with
     | some w => alike scalar v w
     | none => false) && alikeMembers scalar rest ns
termination_by structural ms => ms

end

/-- Equality of scalars by kind and value. -/
def strictScalar : Value → Value → Bool
  | .null, .null => true
  | .bool a, .bool b => a == b
  | .num a, .num b => a.same b
  | .str a, .str b => a == b
  | _, _ => false

/-- The number that a scalar counts as, a boolean being `1` or `0`. -/
def numeric? : Value → Option Number
  | .bool b => some (.int (if b then 1 else 0))
  | .num n => some n
  | _ => none

/-- Equality of scalars in which booleans are numbers and a NaN equals its copies. -/
def looseScalar (a b : Value) : Bool :=
  match a.numeric?, b.numeric? with
  | some m, some n => m.same n || m.isCopy n
  | none, none => strictScalar a b
  | _, _ => false

/-- Structural equality, in which a boolean never equals a number. -/
def jsonEqual (a b : Value) : Bool := alike strictScalar a b

/-- Equality in which a boolean equals the number it stands for, and a NaN its copies. -/
def looseEqual (a b : Value) : Bool := alike looseScalar a b

end Value

end Dashboards
