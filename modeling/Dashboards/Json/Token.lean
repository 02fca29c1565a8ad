import Dashboards.Excess
import Dashboards.Json.Value
import Dashboards.Text.Character

/-!
# Tokens of JSON text

A JSON text is cut into tokens, each with the position of its first character. Cutting never fails:
a text between quotes that cannot be read, an integer with too many digits and a character that
starts no token are tokens too, and the reader decides what to report.
-/

namespace Dashboards

namespace Json

/-- Why a text is not JSON. -/
inductive Complaint where
  | expectingValue
  | expectingName
  | expectingColon
  | expectingComma
  | extraData
  | unterminatedText
  | controlCharacter
  | badEscape
  | badUnicodeEscape
  | byteOrderMark
  deriving DecidableEq, Repr

/-- A complaint and the position of the character it is about. -/
structure Fault where
  complaint : Complaint
  position : Nat
  deriving DecidableEq, Repr

inductive Token where
  | openObject | closeObject | openArray | closeArray | colon | comma
  | scalar (v : Value)
  | text (s : String)
  | broken (fault : Fault)
  | overlong (digits : Nat)
  | stray
  | ending

structure Located where
  token : Token
  position : Nat

def isSpace (c : Char) : Bool := c == ' ' || c == '\t' || c == '\n' || c == '\r'

def hexDigit? (c : Char) : Option Nat :=
  if '0' ≤ c ∧ c ≤ '9' then some (c.toNat - 48)
  else if 'a' ≤ c ∧ c ≤ 'f' then some (c.toNat - 87)
  else if 'A' ≤ c ∧ c ≤ 'F' then some (c.toNat - 55)
  else none

/-- The code unit written by four hexadecimal digits. -/
def hexUnit? (a b c d : Char) : Option Nat := do
  let a ← hexDigit? a
  let b ← hexDigit? b
  let c ← hexDigit? c
  let d ← hexDigit? d
  pure (((a * 16 + b) * 16 + c) * 16 + d)

/-- The character that a backslash and this letter stand for. -/
def escaped? : Char → Option Char
  | '"' => some '"'
  | '\\' => some '\\'
  | '/' => some '/'
  | 'b' => some '\x08'
  | 'f' => some '\x0c'
  | 'n' => some '\n'
  | 'r' => some '\r'
  | 't' => some '\t'
  | _ => none

/-- What reading a quoted text found: its characters, the position after the closing quote and the
characters left. -/
structure Quoted (bound : Nat) where
  text : List Char
  position : Nat
  rest : List Char
  shorter : rest.length < bound

/-- A quoted text is no longer than a longer bound allows. -/
def Quoted.widen {m n : Nat} (h : m ≤ n) (c : List Char) (q : Quoted m) : Quoted n :=
  ⟨c ++ q.text, q.position, q.rest, Nat.lt_of_lt_of_le q.shorter h⟩

/-- The second half of a surrogate pair written as an escape at the front of `cs`: a unit, provided
that a character follows it. -/
def pairedUnit? : List Char → Option (Option Nat)
  | '\\' :: 'u' :: a :: b :: c :: d :: _ :: _ => some (hexUnit? a b c d)
  | _ => none

/-- Reads a quoted text whose opening quote stands at `opened`. A unit escape needs a character
after its four digits, and half of a surrogate pair that has no partner is kept as it is. -/
def readQuoted (opened : Nat) (position : Nat) (cs : List Char) :
    Except Fault (Quoted (cs.length + 1)) :=
  match cs with
  | [] => .error ⟨.unterminatedText, opened⟩
  | '"' :: rest => .ok ⟨[], position + 1, rest, by rw [List.length_cons]; omega⟩
  | ['\\'] => .error ⟨.unterminatedText, opened⟩
  | '\\' :: 'u' :: a :: b :: c :: d :: rest =>
    if rest.isEmpty then .error ⟨.badUnicodeEscape, position + 1⟩
    else
      match hexUnit? a b c d with
      | none => .error ⟨.badUnicodeEscape, position + 1⟩
      | some unit =>
        -- The first half of a surrogate pair looks for the second one in the next escape.
        if 0xD800 ≤ unit ∧ unit < 0xDC00 then
          match pairedUnit? rest with
          | some none => .error ⟨.badUnicodeEscape, position + 7⟩
          | some (some low) =>
            if 0xDC00 ≤ low ∧ low < 0xE000 then
              (readQuoted opened (position + 12) (rest.drop 6)).map
                (Quoted.widen (by simp; omega) [pairChar unit low])
            else (readQuoted opened (position + 6) rest).map (Quoted.widen (by simp) [unitChar unit])
          | none => (readQuoted opened (position + 6) rest).map (Quoted.widen (by simp) [unitChar unit])
        else (readQuoted opened (position + 6) rest).map (Quoted.widen (by simp) [unitChar unit])
  | '\\' :: 'u' :: _ => .error ⟨.badUnicodeEscape, position + 1⟩
  | '\\' :: letter :: rest =>
    match escaped? letter with
    | some c =>
      (readQuoted opened (position + 2) rest).map (Quoted.widen (by simp) [c])
    | none => .error ⟨.badEscape, position⟩
  | c :: rest =>
    if c.toNat ≤ 0x1F then .error ⟨.controlCharacter, position⟩
    else (readQuoted opened (position + 1) rest).map (Quoted.widen (by simp) [c])
termination_by cs.length
decreasing_by all_goals simp_wf <;> omega

/-- The digits at the front of a text, and what follows them. -/
def splitDigits (cs : List Char) : List Char × List Char :=
  (cs.takeWhile Char.isDigit, cs.dropWhile Char.isDigit)

def digitsValue (ds : List Char) : Nat := ds.foldl (fun n d => n * 10 + (d.toNat - 48)) 0

/-- The float written by whole digits, fraction digits and a power of ten. -/
def decimalFloat (whole fraction : List Char) (power : Int) : Float :=
  let e := power - fraction.length
  Float.ofScientific (digitsValue (whole ++ fraction)) (e < 0) e.natAbs

/-- The fraction digits at the front of a text: a point with at least one digit behind it. -/
def splitFraction : List Char → List Char × List Char
  | '.' :: rest => if (splitDigits rest).1.isEmpty then ([], '.' :: rest) else splitDigits rest
  | cs => ([], cs)

/-- The power of ten at the front of a text, the number of its characters, and what follows it. -/
def splitPower : List Char → Option Int × Nat × List Char
  | e :: rest =>
    let (negative, signs, digits) : Bool × Nat × List Char :=
      match rest with
      | '-' :: r => (true, 1, r)
      | '+' :: r => (false, 1, r)
      | r => (false, 0, r)
    let (ds, after) := splitDigits digits
    if (e == 'e' || e == 'E') && !ds.isEmpty then
      let n : Int := digitsValue ds
      (some (if negative then -n else n), 1 + signs + ds.length, after)
    else (none, 0, e :: rest)
  | [] => (none, 0, [])

/-- The token of an integer, given by its sign and its digits. -/
def integerToken (negative : Bool) (digits : List Char) : Token :=
  if Excess.digitLimit < digits.length then .overlong digits.length
  else
    let n : Int := digitsValue digits
    .scalar (.ofInt (if negative then -n else n))

/-- Whether a minus stands at the front of a text, and what follows it. -/
def splitSign : List Char → Bool × List Char
  | '-' :: rest => (true, rest)
  | cs => (false, cs)

/-- The whole part at the front of a text, without leading zeros, and what follows it. -/
def splitWhole : List Char → List Char × List Char
  | '0' :: rest => (['0'], rest)
  | cs => splitDigits cs

/-- The number at the front of a text and the number of its characters. -/
def splitNumber? (cs : List Char) : Option (Token × Nat) :=
  let (negative, rest) := splitSign cs
  let (whole, rest) := splitWhole rest
  let (fraction, rest) := splitFraction rest
  let (power?, marks, _) := splitPower rest
  let signs : Nat := if negative then 1 else 0
  let point : Nat := if fraction.isEmpty then 0 else 1
  let size := signs + whole.length + point + fraction.length + marks
  if whole.isEmpty then none
  -- Only a fraction or a power makes a number a float.
  else if fraction.isEmpty && power?.isNone then some (integerToken negative whole, size)
  else
    let x := decimalFloat whole fraction (power?.getD 0)
    some (.scalar (.ofFloat (if negative then -x else x)), size)

/-- The words that stand for a value. All NaNs of texts have one mark. -/
def words : List (String × Value) :=
  [("null", .null), ("true", .bool true), ("false", .bool false),
   ("NaN", .num (.undefined 0)), ("Infinity", .ofFloat (1.0 / 0.0)),
   ("-Infinity", .ofFloat (-1.0 / 0.0))]

/-- The word at the front of a text, with its value and its length. -/
def splitWord? (cs : List Char) : Option (Value × Nat) :=
  words.findSome? fun (w, v) => if w.toList.isPrefixOf cs then some (v, w.length) else none

def punctuation? : Char → Option Token
  | '{' => some .openObject
  | '}' => some .closeObject
  | '[' => some .openArray
  | ']' => some .closeArray
  | ':' => some .colon
  | ',' => some .comma
  | _ => none

/-- The tokens of a text, the last of them `ending`. What follows a token that cannot be read is
never looked at, so nothing is cut behind it. -/
def tokens (position : Nat) (cs : List Char) : List Located :=
  match cs with
  | [] => [⟨.ending, position⟩]
  | c :: rest =>
    if isSpace c then tokens (position + 1) rest
    else
      match punctuation? c with
      | some t => ⟨t, position⟩ :: tokens (position + 1) rest
      | none =>
        if c == '"' then
          match readQuoted position (position + 1) rest with
          | .ok q =>
            have := q.shorter
            ⟨.text (String.ofList q.text), position⟩ :: tokens q.position q.rest
          | .error fault => [⟨.broken fault, position⟩]
        else
          match splitWord? (c :: rest) with
          | some (v, n) => ⟨.scalar v, position⟩ :: tokens (position + n) (rest.drop (n - 1))
          | none =>
            match splitNumber? (c :: rest) with
            | some (t, n) => ⟨t, position⟩ :: tokens (position + n) (rest.drop (n - 1))
            | none => [⟨.stray, position⟩]
termination_by cs.length
decreasing_by all_goals simp only [List.length_cons, List.length_drop]; omega

end Json

end Dashboards
