/-!
# The exact value of a float

A finite binary64 number is `±mantissa · 2^exponent`. Printing and comparing look at that exact
value, so both are integer arithmetic; the way back, from a quotient of naturals to the nearest
float, is one correctly rounded division.
-/

namespace Dashboards

/-- A binary64 number taken apart: a finite one is `±mantissa · 2^exponent`. -/
inductive Binary where
  | undefined
  | infinite (negative : Bool)
  | finite (negative : Bool) (mantissa : Nat) (exponent : Int)
  deriving DecidableEq, Repr

namespace Binary

open Float.Model in
def ofFloat (x : Float) : Binary :=
  match UnpackedFloat.unpack .binary64 x.toBits.toBitVec with
  | .notANumber => .undefined
  | .infinity s => .infinite (s == .negative)
  | .zero s => .finite (s == .negative) 0 0
  | .finite s m e _ => .finite (s == .negative) m e

/-- The numerator and the denominator of `mantissa · 2^exponent`. -/
def fraction (mantissa : Nat) (exponent : Int) : Nat × Nat :=
  (mantissa * Nat.pow 2 exponent.toNat, Nat.pow 2 (-exponent).toNat)

/-- The rational number `±mantissa · 2^exponent`. -/
def rational (negative : Bool) (mantissa : Nat) (exponent : Int) : Rat :=
  let (num, den) := fraction mantissa exponent
  mkRat (if negative then -(num : Int) else num) den

/-- The float nearest to `num / den`, ties to even; infinite when the quotient is out of range. -/
def nearest (num den : Nat) : Float :=
  if hn : 0 < num then
    if hd : 0 < den then
      ⟨Float.Model.pack (.div .binary64 (.finite .positive num 0 hn) (.finite .positive den 0 hd))⟩
    else 0.0
  else 0.0

end Binary

end Dashboards
