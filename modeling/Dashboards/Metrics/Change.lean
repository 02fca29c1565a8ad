import Dashboards.Json.Value
import Dashboards.Metrics.Measure

/-!
# Relative change

The change from one period to the next, in percent of the magnitude it starts from.
-/

namespace Dashboards

section

variable {α : Type} [Measure α]

/-- The change in percent. Growth from zero counts as one hundred percent, and where one of the
values is not finite there is no change. -/
def percentChange (current previous : α) : Calculated α := do
  if !(← Measure.isFinite current) then pure (Measure.ofInt 0)
  else if !(← Measure.isFinite previous) then pure (Measure.ofInt 0)
  else if Measure.isZero previous then
    pure (Measure.ofInt (if Measure.isPositive current then 100 else 0))
  else
    let scaled ← Measure.mul (← Measure.sub current previous) (Measure.ofInt 100)
    Measure.div scaled (Measure.magnitude previous)

end

/-- The number that a value counts as in a calculation; a boolean counts as one or zero. -/
def Value.measured : Value → Calculated Number
  | .bool b => .ok (.int (if b then 1 else 0))
  | .num n => .ok n
  | v => .error (.notNumber v.kindName)

/-- The change between two values. The previous one is not looked at when the current one is not
finite. -/
def percentChangeOf (current previous : Value) : Calculated Number := do
  let c ← current.measured
  if ← c.hasFiniteFloat then percentChange c (← previous.measured) else pure (.int 0)

end Dashboards
