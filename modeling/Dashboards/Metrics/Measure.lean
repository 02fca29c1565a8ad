import Dashboards.Metrics.Sum

/-!
# Measures

Metrics are computed and compared over any kind of number that can be measured: over the numbers of
documents, with their rounding and their faults, and over the rationals, where nothing is rounded.
-/

namespace Dashboards

/-- Numbers that metrics are computed with. -/
class Measure (α : Type) where
  ofInt : Int → α
  sub : α → α → Calculated α
  mul : α → α → Calculated α
  div : α → α → Calculated α
  neg : α → α
  magnitude : α → α
  lt : α → α → Bool
  same : α → α → Bool
  isFinite : α → Calculated Bool
  /-- The number as a measured quantity, no longer a count. -/
  real : α → Calculated α
  /-- The total of a column with missing cells. -/
  total : List (Option α) → Calculated α

instance : Measure Number where
  ofInt := .int
  sub := Number.sub
  mul := Number.mul
  div := Number.div
  neg := Number.neg
  magnitude := Number.magnitude
  lt := Number.lt
  same := Number.same
  isFinite := Number.hasFiniteFloat
  real n := n.toFloat.map .float
  total := Number.total

instance : Measure Rat where
  ofInt n := n
  sub a b := .ok (a - b)
  mul a b := .ok (a * b)
  div a b := if b = 0 then .error .divisionByZero else .ok (a / b)
  neg a := -a
  magnitude a := if a < 0 then -a else a
  lt a b := decide (a < b)
  same a b := decide (a = b)
  isFinite _ := .ok true
  real a := .ok a
  total cells := .ok ((cells.map (·.getD 0)).foldl (· + ·) 0)

namespace Measure

variable {α : Type} [Measure α]

def isZero (a : α) : Bool := same a (ofInt 0)

def isPositive (a : α) : Bool := lt (ofInt 0) a

def le (a b : α) : Bool := lt a b || same a b

end Measure

end Dashboards
