import Dashboards.Decimal.Text
import Dashboards.Json.Number

/-!
# Arithmetic of metrics

Integers are added and multiplied exactly, and the quotient of two integers is the float nearest to
it. As soon as a float takes part, the other number is rounded to a float first, which an integer
beyond the range of floats does not allow.
-/

namespace Dashboards

/-- Why a calculation has no result. -/
inductive ArithmeticFault where
  | integerTooLarge
  | quotientTooLarge
  | divisionByZero
  | notNumber (kind : String)
  deriving DecidableEq

def ArithmeticFault.message : ArithmeticFault → String
  | .integerTooLarge => "int too large to convert to float"
  | .quotientTooLarge => "integer division result too large for a float"
  | .divisionByZero => "division by zero"
  | .notNumber kind => s!"must be real number, not {kind}"

/-- A calculation that may have no result. -/
abbrev Calculated (α : Type) := Except ArithmeticFault α

namespace Number

/-- The float nearest to a number. -/
def toFloat : Number → Calculated Float
  | .float x => .ok x
  | .undefined _ => .ok (0.0 / 0.0)
  | .int n =>
    let x := Float.ofInt n
    if x.isInf then .error .integerTooLarge else .ok x

/-- The float nearest to a number, infinite for an integer beyond the range. -/
def nearestFloat : Number → Float
  | .float x => x
  | .undefined _ => 0.0 / 0.0
  | .int n => Float.ofInt n

/-- Whether a number is finite as a float. -/
def hasFiniteFloat (n : Number) : Calculated Bool := n.toFloat.map (·.isFinite)

/-- Combines two integers exactly, and any other two numbers as floats. -/
def combine (exactly : Int → Int → Int) (rounded : Float → Float → Float) (a b : Number) :
    Calculated Number :=
  match a, b with
  | .int m, .int n => .ok (.int (exactly m n))
  | _, _ => do pure (.float (rounded (← a.toFloat) (← b.toFloat)))

def sub (a b : Number) : Calculated Number := combine (· - ·) (· - ·) a b

def mul (a b : Number) : Calculated Number := combine (· * ·) (· * ·) a b

/-- The float nearest to the quotient of two integers. -/
def quotient (m n : Int) : Calculated Number :=
  if n = 0 then .error .divisionByZero
  else
    let x := Binary.nearest m.natAbs n.natAbs
    if x.isInf then .error .quotientTooLarge
    else .ok (.float (if decide (m < 0) != decide (n < 0) then -x else x))

def div (a b : Number) : Calculated Number :=
  match a, b with
  | .int m, .int n => quotient m n
  | _, _ => do
    let (x, y) := (← a.toFloat, ← b.toFloat)
    if y == 0.0 then throw .divisionByZero else pure (.float (x / y))

def neg : Number → Number
  | .int n => .int (-n)
  | .float x => .float (-x)
  | .undefined mark => .undefined mark

/-- The number without its sign. -/
def magnitude : Number → Number
  | .int n => .int n.natAbs
  | .float x => .float x.abs
  | .undefined mark => .undefined mark

def le (a b : Number) : Bool := a.lt b || a.same b

end Number

end Dashboards
