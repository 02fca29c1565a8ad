import Dashboards.Decimal.Binary

/-!
# The fewest digits that identify a float

A decimal reads back to the float `m · 2^q` when it lies between the two points half-way to the
neighbouring floats, the points themselves included exactly when `m` is even. For one digit, then
two, and so on, the two decimals around the value are tried; the first that reads back wins, and of
two the nearer one, an exact tie going to the even digit.
-/

namespace Dashboards

/-- The decimal `digits · 10^exponent`. -/
structure Decimal where
  digits : Nat
  exponent : Int
  deriving DecidableEq, Repr

namespace Decimal

/-- How `a · 10^i` compares with `b · 2^j`. -/
def compareScaled (a : Nat) (i : Int) (b : Nat) (j : Int) : Ordering :=
  compare (a * Nat.pow 10 i.toNat * Nat.pow 2 (-j).toNat)
    (b * Nat.pow 2 j.toNat * Nat.pow 10 (-i).toNat)

/-- Whether `d` lies among the reals that round to `m · 2^q`. Below a power of two the gap to the
next float is half as wide as above it. -/
def readsBack (m : Nat) (q : Int) (d : Decimal) : Bool :=
  let low := if m == Nat.pow 2 52 && q > -1074 then 4 * m - 1 else 4 * m - 2
  let high := 4 * m + 2
  let closed := m % 2 == 0
  let atLow := compareScaled d.digits d.exponent low (q - 2)
  let atHigh := compareScaled d.digits d.exponent high (q - 2)
  (atLow == .gt || (closed && atLow == .eq)) && (atHigh == .lt || (closed && atHigh == .eq))

/-- The number of decimal digits of a natural number. -/
def width (n : Nat) : Nat := (Nat.toDigits 10 n).length

/-- The least `k` with `m · 2^q < 10^k`, for a positive value no smaller than `10^-350`. -/
def magnitude (m : Nat) (q : Int) : Int :=
  let (num, den) := Binary.fraction m q
  (width (num * Nat.pow 10 350 / den) : Int) - 350

/-- The decimal with `n` digits that reads back to `m · 2^q`, if one of the two around it does. -/
def withDigits? (m : Nat) (q k : Int) (n : Nat) : Option Decimal :=
  let grid := k - n
  let (num, den) := Binary.fraction m q
  -- From here on the value is counted in units of the grid.
  let num := num * Nat.pow 10 (-grid).toNat
  let den := den * Nat.pow 10 grid.toNat
  let below : Decimal := ⟨num / den, grid⟩
  let above : Decimal := ⟨num / den + 1, grid⟩
  match readsBack m q below, readsBack m q above with
  | true, false => some below
  | false, true => some above
  | false, false => none
  | true, true =>
    -- The remainder against half a unit says which one is nearer.
    match compare (2 * (num % den)) den with
    | .lt => some below
    | .gt => some above
    | .eq => some (if below.digits % 2 == 0 then below else above)

/-- Moves trailing zeros of the digits into the exponent. -/
def strip : (steps : Nat) → Decimal → Decimal
  | 0, d => d
  | steps + 1, d =>
    if d.digits % 10 == 0 && d.digits != 0 then strip steps ⟨d.digits / 10, d.exponent + 1⟩ else d

/-- The first decimal that reads back to `m · 2^q`, from one digit up to seventeen. -/
def fewest? (m : Nat) (q : Int) : Option Decimal :=
  let k := magnitude m q
  (List.range 17).findSome? fun n => withDigits? m q k (n + 1)

/-- All digits of `m · 2^q` down to a place below every float. -/
def allDigits (m : Nat) (q : Int) : Decimal :=
  let (num, den) := Binary.fraction m q
  ⟨num * Nat.pow 10 350 / den, -350⟩

/-- The shortest decimal that reads back to `m · 2^q`. Seventeen digits suffice, so that no float asks
for all of them. -/
def shortest (m : Nat) (q : Int) : Decimal := ((fewest? m q).map (strip 20)).getD (allDigits m q)

end Decimal

end Dashboards
