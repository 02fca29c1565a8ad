import Dashboards.Json.Reader
import Dashboards.Text.Character

/-!
# JSON objects embedded in text

A reply in prose may carry its JSON object alone, inside a fenced block or between other words. The
three places are tried in this order, and the first that holds the text of an object wins. A text
that goes beyond a bound ends the search.
-/

namespace Dashboards

namespace Embedded

/-- The members of the object that a JSON text stands for. -/
def objectOf? (text : String) : Except Excess (Option (Members Value)) :=
  match Json.read text with
  | .ok (.obj ms) => .ok (some ms)
  | .ok _ | .error (.malformed _) => .ok none
  | .error (.beyond excess) => .error excess

def fence : List Char := ['`', '`', '`']

/-- What follows a word at the front of a text, or the text itself when it starts otherwise. -/
def skipWord (word cs : List Char) : List Char :=
  if word.isPrefixOf cs then cs.drop word.length else cs

/-- Whether a line break, blanks and a fence stand at the front. -/
def closesBlock : List Char → Bool
  | '\n' :: rest => fence.isPrefixOf (rest.dropWhile isBlank)
  | _ => false

/-- The text before the first closing of a block. -/
def untilClosed? : List Char → Option (List Char)
  | [] => none
  | c :: rest => if closesBlock (c :: rest) then some [] else (untilClosed? rest).map (c :: ·)

/-- The body of a block whose opening line ends within the blanks at the front. Of several line
breaks there, the last behind which the block is closed ends the opening line. -/
def body? : List Char → Option (List Char)
  | [] => none
  | c :: rest =>
    if isBlank c then (body? rest).or (if c == '\n' then untilClosed? rest else none) else none

/-- The body of a block that is opened at the front, with or without naming its language. -/
def blockAt? (cs : List Char) : Option (List Char) :=
  if fence.isPrefixOf cs then body? (skipWord "json".toList (cs.drop fence.length)) else none

/-- The body of the first fenced block. -/
def fenced? : List Char → Option (List Char)
  | [] => none
  | c :: rest => (blockAt? (c :: rest)).or (fenced? rest)

/-- The text from the first opening brace to the last closing brace. -/
def braced? (cs : List Char) : Option (List Char) :=
  let opened := cs.dropWhile (· ≠ '{')
  let closed := (opened.reverse.dropWhile (· ≠ '}')).reverse
  if closed.isEmpty then none else some closed

/-- The places where the object may be: the text itself, the body of its first block, and what
stands between its outermost braces. -/
def places (text : String) : List String :=
  [some text, (fenced? text.toList).map fun cs => String.ofList (trimBoth isBlank cs),
    (braced? text.toList).map String.ofList].filterMap id

/-- The object that the first of some texts holds that is the text of an object. -/
def firstObject? : List String → Except Excess (Option (Members Value))
  | [] => .ok none
  | text :: rest => do
    match ← objectOf? text with
    | some ms => pure (some ms)
    | none => firstObject? rest

/-- The object that a text holds. -/
def find? (text : String) : Except Excess (Option (Members Value)) := firstObject? (places text)

end Embedded

end Dashboards
