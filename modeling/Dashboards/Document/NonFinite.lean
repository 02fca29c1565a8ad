import Dashboards.Json.Value

/-!
# Numbers that are not finite

A stored document holds finite numbers only. The scan lists the dotted path of every other one, in
document order.
-/

namespace Dashboards

/-- A dotted path one step longer; the empty path is the root. -/
def dotted (path step : String) : String := if path = "" then step else path ++ "." ++ step

namespace Value

mutual

/-- The paths of the numbers in a value that are not finite. -/
def nonFinite (path : String) : Value → List String
  | .num n => if n.isFinite then [] else [if path = "" then "<root>" else path]
  | .arr xs => nonFiniteItems path 0 xs
  | .obj ms => nonFiniteMembers path ms
  | _ => []
termination_by structural v => v

def nonFiniteItems (path : String) (index : Nat) : List Value → List String
  | [] => []
  | x :: xs => nonFinite (dotted path (toString index)) x ++ nonFiniteItems path (index + 1) xs
termination_by structural xs => xs

def nonFiniteMembers (path : String) : List (String × Value) → List String
  | [] => []
  | (k, v) :: rest => nonFinite (dotted path k) v ++ nonFiniteMembers path rest
termination_by structural ms => ms

end

mutual

/-- The value with `null` in place of every number that is not finite. -/
def finiteOnly : Value → Value
  | .num n => if n.isFinite then .num n else .null
  | .arr xs => .arr (finiteOnlyItems xs)
  | .obj ms => .obj (finiteOnlyMembers ms)
  | v => v
termination_by structural v => v

def finiteOnlyItems : List Value → List Value
  | [] => []
  | x :: xs => finiteOnly x :: finiteOnlyItems xs
termination_by structural xs => xs

def finiteOnlyMembers : List (String × Value) → List (String × Value)
  | [] => []
  | (k, v) :: rest => (k, finiteOnly v) :: finiteOnlyMembers rest
termination_by structural ms => ms

end

end Value

end Dashboards
