import Dashboards.Decimal.Shortest

/-!
# Floats as text

Two written forms: the shortest text that identifies a float, and a fixed number of places rounded
from the exact value with ties to even. A float that is so rounded is again a float.
-/

namespace Dashboards

namespace Decimal

/-- Writes `d`, positionally when its leading digit stands for `10^-4` up to `10^15`, otherwise with
a signed exponent of at least two digits. -/
def layout (d : Decimal) : String :=
  let ds := Nat.toDigits 10 d.digits
  let point := (ds.length : Int) + d.exponent
  let lead := point - 1
  let zeros (n : Int) := List.replicate n.toNat '0'
  String.ofList <|
    if -4 ≤ lead ∧ lead < 16 then
      if point ≤ 0 then '0' :: '.' :: zeros (-point) ++ ds
      else if d.exponent ≥ 0 then ds ++ zeros d.exponent ++ ['.', '0']
      else ds.take point.toNat ++ '.' :: ds.drop point.toNat
    else
      let fraction := if ds.length ≤ 1 then [] else '.' :: ds.drop 1
      let power := Nat.toDigits 10 lead.natAbs
      ds.take 1 ++ fraction ++ ['e', if lead < 0 then '-' else '+'] ++
        zeros (2 - (power.length : Int)) ++ power

/-- The quotient `num / den` rounded to the nearest natural number, a tie going to the even one. -/
def roundQuotient (num den : Nat) : Nat :=
  let floor := num / den
  match compare (2 * (num % den)) den with
  | .lt => floor
  | .gt => floor + 1
  | .eq => if floor % 2 == 0 then floor else floor + 1

/-- Puts a comma before every third digit counted from the right. -/
def groupThousands (digits : List Char) : List Char :=
  let rec go : List Char → List Char
    | a :: b :: c :: d :: rest => a :: b :: c :: ',' :: go (d :: rest)
    | rest => rest
  (go digits.reverse).reverse

/-- Writes `num / den` with the given number of places. -/
def fixedQuotient (places : Nat) (grouped : Bool) (num den : Nat) : String :=
  let unit := Nat.pow 10 places
  let scaled := roundQuotient (num * unit) den
  let whole := Nat.toDigits 10 (scaled / unit)
  let part := Nat.toDigits 10 (scaled % unit)
  let whole := if grouped then groupThousands whole else whole
  let tail :=
    if places == 0 then []
    else '.' :: List.replicate (places - part.length) '0' ++ part
  String.ofList (whole ++ tail)

/-- The shortest text that reads back to `x`, with `nan`, `inf` and `-inf` for the other values. -/
def shortText (x : Float) : String :=
  match Binary.ofFloat x with
  | .undefined => "nan"
  | .infinite negative => if negative then "-inf" else "inf"
  | .finite negative m q =>
    let body := if m == 0 then "0.0" else (shortest m q).layout
    if negative then "-" ++ body else body

/-- The exact value of `x` with a fixed number of places; a negative zero keeps its sign. -/
def fixedText (places : Nat) (grouped : Bool) (x : Float) : String :=
  match Binary.ofFloat x with
  | .undefined => "nan"
  | .infinite negative => if negative then "-inf" else "inf"
  | .finite negative m q =>
    let (num, den) := Binary.fraction m q
    let body := fixedQuotient places grouped num den
    if negative then "-" ++ body else body

/-- The float nearest to the exact value of `x` rounded to some places, a tie going to the even last
digit; what is not finite stays as it is. -/
def rounded (places : Nat) (x : Float) : Float :=
  match Binary.ofFloat x with
  | .finite negative m q =>
    let (num, den) := Binary.fraction m q
    let unit := Nat.pow 10 places
    let size := Binary.nearest (roundQuotient (num * unit) den) unit
    if negative then -size else size
  | .undefined | .infinite _ => x

end Decimal

end Dashboards
