import Dashboards.Decimal.Text
import Dashboards.Json.Value

/-!
# Writing JSON text

Three written forms: one line with spaces after the separators, an indented form, and a compact
form without spaces. The first and the last can keep to ASCII, other characters being escaped as
code units of four hexadecimal digits.
-/

namespace Dashboards

namespace Json

/-- `n` in hexadecimal with at least the given number of digits. -/
def hexText (digits n : Nat) : List Char :=
  let ds := Nat.toDigits 16 n
  List.replicate (digits - ds.length) '0' ++ ds

def unitEscape (unit : Nat) : List Char := '\\' :: 'u' :: hexText 4 unit

/-- A character inside quotes. In the ASCII form everything outside the printable ASCII range is
escaped, beyond U+FFFF as a surrogate pair. -/
def quoteChar (ascii : Bool) (c : Char) : List Char :=
  match c with
  | '"' => ['\\', '"']
  | '\\' => ['\\', '\\']
  | '\n' => ['\\', 'n']
  | '\r' => ['\\', 'r']
  | '\t' => ['\\', 't']
  | '\x0c' => ['\\', 'f']
  | '\x08' => ['\\', 'b']
  | c =>
    let n := c.toNat
    if n < 0x20 then unitEscape n
    else if ascii && 0x7F ≤ n then
      if n < 0x10000 then unitEscape n
      else unitEscape (0xD800 + (n - 0x10000) / 0x400) ++ unitEscape (0xDC00 + (n - 0x10000) % 0x400)
    else [c]

def quote (ascii : Bool) (s : String) : String :=
  String.ofList ('"' :: s.toList.flatMap (quoteChar ascii) ++ ['"'])

/-- The text of a number, with words for the values that are not finite. -/
def numberText : Number → String
  | .int n => toString n
  | .float x =>
    match Binary.ofFloat x with
    | .undefined => "NaN"
    | .infinite negative => if negative then "-Infinity" else "Infinity"
    | .finite .. => Decimal.shortText x
  | .undefined _ => "NaN"

/-- How a JSON text is spaced, and whether it keeps to ASCII. -/
structure Style where
  ascii : Bool
  itemSeparator : String
  keySeparator : String

/-- One line, with a space after each comma and colon. -/
def Style.spaced (ascii : Bool) : Style := ⟨ascii, ", ", ": "⟩

def Style.compact : Style := ⟨true, ",", ":"⟩

mutual

/-- A value on one line. -/
def line (style : Style) : Value → String
  | .null => "null"
  | .bool b => if b then "true" else "false"
  | .num n => numberText n
  | .str s => quote style.ascii s
  | .arr xs => "[" ++ style.itemSeparator.intercalate (lineItems style xs) ++ "]"
  | .obj ms => "\x7b" ++ style.itemSeparator.intercalate (lineMembers style ms) ++ "\x7d"
termination_by structural v => v

def lineItems (style : Style) : List Value → List String
  | [] => []
  | x :: xs => line style x :: lineItems style xs
termination_by structural xs => xs

def lineMembers (style : Style) : List (String × Value) → List String
  | [] => []
  | (k, v) :: rest => (quote style.ascii k ++ style.keySeparator ++ line style v) :: lineMembers style rest
termination_by structural ms => ms

end

/-- A block of lines between brackets, indented by two more spaces than its brackets. -/
def block (opening closing : String) (depth : Nat) (entries : List String) : String :=
  let pad (n : Nat) := "\n" ++ String.ofList (List.replicate (2 * n) ' ')
  if entries.isEmpty then opening ++ closing
  else opening ++ pad (depth + 1) ++ (("," ++ pad (depth + 1)).intercalate entries) ++ pad depth ++ closing

mutual

/-- A value on indented lines, non-ASCII characters as they are. -/
def indented (depth : Nat) : Value → String
  | .null => "null"
  | .bool b => if b then "true" else "false"
  | .num n => numberText n
  | .str s => quote false s
  | .arr xs => block "[" "]" depth (indentedItems (depth + 1) xs)
  | .obj ms => block "\x7b" "\x7d" depth (indentedMembers (depth + 1) ms)
termination_by structural v => v

def indentedItems (depth : Nat) : List Value → List String
  | [] => []
  | x :: xs => indented depth x :: indentedItems depth xs
termination_by structural xs => xs

def indentedMembers (depth : Nat) : List (String × Value) → List String
  | [] => []
  | (k, v) :: rest => (quote false k ++ ": " ++ indented depth v) :: indentedMembers depth rest
termination_by structural ms => ms

end

end Json

end Dashboards
