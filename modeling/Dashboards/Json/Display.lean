import Dashboards.Decimal.Text
import Dashboards.Json.Writer
import Dashboards.Text.Character

/-!
# Values in messages

Messages for people show a value in a notation of its own: texts in single quotes, `None`, `True`
and `False` for the words of JSON, and characters that are not printable as escapes.
-/

namespace Dashboards

/-- Texts stand in single quotes unless they hold a single quote and no double quote. -/
def quoteMark (s : String) : Char :=
  if s.contains '\'' && !s.contains '"' then '"' else '\''

/-- A character of a shown text: the quote in use, backslashes, unpaired halves and unprintable
characters escaped. -/
def showChar (mark c : Char) : List Char :=
  if let some unit := half? c then '\\' :: 'u' :: Json.hexText 4 unit
  else if c == mark || c == '\\' then ['\\', c]
  else if c == '\n' then ['\\', 'n']
  else if c == '\r' then ['\\', 'r']
  else if c == '\t' then ['\\', 't']
  else if isPrintable c then [c]
  else
    let n := c.toNat
    if n < 0x100 then '\\' :: 'x' :: Json.hexText 2 n
    else if n < 0x10000 then '\\' :: 'u' :: Json.hexText 4 n
    else '\\' :: 'U' :: Json.hexText 8 n

/-- A text as messages show it. -/
def showText (s : String) : String :=
  let mark := quoteMark s
  String.ofList (mark :: s.toList.flatMap (showChar mark) ++ [mark])

def Number.show : Number → String
  | .int n => toString n
  | .float x => Decimal.shortText x
  | .undefined _ => "nan"

namespace Value

mutual

/-- A value as messages show it. -/
def shown : Value → String
  | .null => "None"
  | .bool b => if b then "True" else "False"
  | .num n => n.show
  | .str s => showText s
  | .arr xs => "[" ++ ", ".intercalate (shownItems xs) ++ "]"
  | .obj ms => "\x7b" ++ ", ".intercalate (shownMembers ms) ++ "\x7d"
termination_by structural v => v

def shownItems : List Value → List String
  | [] => []
  | x :: xs => shown x :: shownItems xs
termination_by structural xs => xs

def shownMembers : List (String × Value) → List String
  | [] => []
  | (k, v) :: rest => (showText k ++ ": " ++ shown v) :: shownMembers rest
termination_by structural ms => ms

end

/-- A value as running text: a text is given without quotes. -/
def plain : Value → String
  | .str s => s
  | v => v.shown

end Value

end Dashboards
