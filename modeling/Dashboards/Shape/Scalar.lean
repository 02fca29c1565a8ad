import Dashboards.Json.Token
import Dashboards.Shape.Basic
import Dashboards.Text.Character

/-!
# Scalars of a shape

Numbers and booleans may be written as texts, booleans count as numbers, and a float without a
fractional part is an integer. Texts are never made from other values. A text that is looked at any
further has to be one that can be encoded.
-/

namespace Dashboards

namespace Shape

def text : Reader String
  | .str s => .good s
  | _ => fail .notText

/-- A text without unpaired halves. -/
def encodable (s : String) : Checked String :=
  if isEncodable s then .good s else fail .notEncodable

/-- A text of at least and at most so many characters. -/
def textWithin (least : Nat) (greatest : Option Nat) : Reader String := fun v =>
  ((text v).refine encodable).refine fun s =>
    if s.length < least then fail (.textTooShort least)
    else
      match greatest with
      | some n => if n < s.length then fail (.textTooLong n) else .good s
      | none => .good s

/-! ## Integers -/

/-- The digits without underscores, which may stand singly between them. -/
def withoutUnderscores? (cs : List Char) : Option (List Char) :=
  let rec doubled : List Char → Bool
    | '_' :: '_' :: _ => true
    | _ :: rest => doubled rest
    | [] => false
  if cs.head? = some '_' || cs.getLast? = some '_' || doubled cs then none
  else some (cs.filter (· ≠ '_'))

/-- The integer written by a sign and digits without a leading zero, `0` alone apart. Too long a run of
digits is noticed before anything behind it. -/
def plainInteger (cs : List Char) : Except Cause Int :=
  let (negative, body) : Bool × List Char :=
    match cs with
    | '-' :: rest => (true, rest)
    | cs => (false, cs)
  let (digits, rest) := Json.splitDigits body
  if digits.head? = some '0' then
    if body = ['0'] then .ok 0 else .error .unreadableInteger
  else if Excess.digitLimit < digits.length then .error .longInteger
  else if digits.isEmpty || !rest.isEmpty then .error .unreadableInteger
  else
    let n : Int := Json.digitsValue digits
    .ok (if negative then -n else n)

/-- The text behind its leading zeros and the underscores between them, of which one character is kept
where neither a digit nor a minus sign follows. -/
def withoutLeadingZeros? (cs : List Char) : Option (List Char) :=
  let zeros := cs.takeWhile fun c => c == '0' || c == '_'
  match cs.head?, cs.drop zeros.length with
  | some '0', [] => some (zeros.drop (zeros.length - 1))
  | some '0', '.' :: rest => some (zeros.drop (zeros.length - 1) ++ '.' :: rest)
  | some '0', c :: rest => if c.isDigit || c == '-' then some (c :: rest) else none
  | some c, _ => if c.isDigit then some cs else none
  | none, _ => none

/-- The text without a plus sign and without leading zeros, which may stand behind a minus sign. -/
def withoutPadding? : List Char → Option (List Char)
  | '+' :: '-' :: _ => none
  | '+' :: rest => withoutLeadingZeros? rest
  | '-' :: rest => (withoutLeadingZeros? rest).map ('-' :: ·)
  | cs => withoutLeadingZeros? cs

/-- The text before a point behind which only zeros stand, at least one of them. -/
def withoutZeroFraction? (cs : List Char) : Option (List Char) :=
  match cs.dropWhile (· ≠ '.') with
  | [] => some cs
  | [_] => none
  | _ :: fraction => if fraction.all (· == '0') then some (cs.takeWhile (· ≠ '.')) else none

/-- The integer that a text stands for: blanks around it, a plus sign, leading zeros, a fraction of
zeros and single underscores are let through. -/
def readInteger (s : String) : Except Cause Int :=
  match plainInteger s.toList with
  | .error .unreadableInteger =>
    let body? := (withoutPadding? (trimBoth isWhite s.toList)).bind withoutZeroFraction?
    match body?.bind withoutUnderscores? with
    | some cs => plainInteger cs
    | none => .error .unreadableInteger
  | result => result

/-- The magnitude below which a float is taken as an integer, two to the power of 63. -/
def wholeFloatBound : Rat := 9223372036854775808

/-- The integer that a number stands for. -/
def wholeNumber (n : Number) : Except Cause Int :=
  match n with
  | .int n => .ok n
  | n =>
    match n.exact with
    | .finite r =>
      if r.den ≠ 1 then .error .notWhole
      else if -wholeFloatBound < r ∧ r < wholeFloatBound then .ok r.num
      else .error .longInteger
    | _ => .error .notFinite

/-- The outcome of reading a value with at most one fault. -/
def single {α : Type} : Except Cause α → Checked α
  | .ok a => .good a
  | .error cause => fail cause

def integer : Reader Int
  | .bool b => .good (if b then 1 else 0)
  | .num n => single (wholeNumber n)
  | .str s => (encodable s).refine fun s => single (readInteger s)
  | _ => fail .notInteger

def integerAtLeast (least : Int) : Reader Int := fun v =>
  (integer v).refine fun n => if n < least then fail (.below least) else .good n

/-! ## Floats -/

/-- Whether two texts are equal up to the case of ASCII letters. -/
def sameWord (s word : String) : Bool := s.toLower == word

/-- The float a text stands for: a decimal with digits on at least one side of its point and an
optional power of ten, or a word for a value that is not finite. -/
def readPlainFloat? (cs : List Char) : Option Float :=
  let (negative, body) : Bool × List Char :=
    match cs with
    | '-' :: rest => (true, rest)
    | '+' :: rest => (false, rest)
    | cs => (false, cs)
  let signed (x : Float) := if negative then -x else x
  let word := String.ofList body
  if sameWord word "inf" || sameWord word "infinity" then some (signed (1.0 / 0.0))
  else if sameWord word "nan" then some (0.0 / 0.0)
  else
    let (whole, rest) := Json.splitDigits body
    let (fraction, rest) : List Char × List Char :=
      match rest with
      | '.' :: after => Json.splitDigits after
      | rest => ([], rest)
    if whole.isEmpty && fraction.isEmpty then none
    else
      match Json.splitPower rest with
      | (power?, _, []) => some (signed (Json.decimalFloat whole fraction (power?.getD 0)))
      | _ => none

def readFloat? (s : String) : Option Float :=
  let cs := trimBoth isWhite s.toList
  match readPlainFloat? cs with
  | some x => some x
  | none =>
    if cs.contains '_' then (withoutUnderscores? s.toList).bind readPlainFloat? else none

/-- The float nearest to an integer, unless that is infinite. -/
def floatOfInt? (n : Int) : Option Float :=
  let x := Float.ofInt n
  if x.isInf then none else some x

def float : Reader Float
  | .bool b => .good (if b then 1.0 else 0.0)
  | .num (.float x) => .good x
  | .num (.undefined _) => .good (0.0 / 0.0)
  | .num (.int n) =>
    match floatOfInt? n with
    | some x => .good x
    | none => fail .notNumber
  | .str s =>
    (encodable s).refine fun s =>
      match readFloat? s with
      | some x => .good x
      | none => fail .unreadableNumber
  | _ => fail .notNumber

/-- A float between bounds; the upper one is looked at first, and a NaN is outside both. -/
def floatWithin (least : Int) (greatest : Option Int) : Reader Float := fun v =>
  (float v).refine fun x =>
    let belowUpper : Bool :=
      match greatest with
      | some n => decide (x ≤ Float.ofInt n)
      | none => true
    if !belowUpper then fail (.above (greatest.getD 0))
    else if x ≥ Float.ofInt least then .good x
    else fail (.below least)

/-! ## Booleans -/

def trueWords : List String := ["1", "on", "t", "true", "y", "yes"]

def falseWords : List String := ["0", "off", "f", "false", "n", "no"]

/-- An integer that stands for a boolean. -/
def booleanOfInt : Int → Checked Bool
  | 0 => .good false
  | 1 => .good true
  | _ => fail .unreadableBoolean

def boolean : Reader Bool
  | .bool b => .good b
  | .str s =>
    (encodable s).refine fun s =>
      if falseWords.any (sameWord s) then .good false
      else if trueWords.any (sameWord s) then .good true
      else fail .unreadableBoolean
  | .num n =>
    match n.exact with
    | .finite r =>
      if r.den = 1 ∧ -wholeFloatBound < r ∧ r < wholeFloatBound then booleanOfInt r.num
      else fail .notBoolean
    | _ => fail .notBoolean
  | _ => fail .notBoolean

end Shape

end Dashboards
