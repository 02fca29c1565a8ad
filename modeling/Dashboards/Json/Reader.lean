import Dashboards.Json.Token

/-!
# Reading JSON text

The reader walks the tokens of a text once, keeping the collections that are still open on a stack.
Of two entries with one key the later wins, in the place of the earlier. It gives up at an integer
with too many digits and at a collection that is nested too deeply.
-/

namespace Dashboards

namespace Json

namespace Complaint

def message : Complaint → String
  | .expectingValue => "Expecting value"
  | .expectingName => "Expecting property name enclosed in double quotes"
  | .expectingColon => "Expecting ':' delimiter"
  | .expectingComma => "Expecting ',' delimiter"
  | .extraData => "Extra data"
  | .unterminatedText => "Unterminated string starting at"
  | .controlCharacter => "Invalid control character at"
  | .badEscape => "Invalid \\escape"
  | .badUnicodeEscape => "Invalid \\uXXXX escape"
  | .byteOrderMark => "Unexpected UTF-8 BOM (decode using utf-8-sig)"

end Complaint

/-- The fault with its line, its column and its position in the text. -/
def Fault.message (fault : Fault) (text : String) : String :=
  let before := text.toList.take fault.position
  let line := before.count '\n' + 1
  let column := (before.reverse.takeWhile (· ≠ '\n')).length + 1
  s!"{fault.complaint.message}: line {line} column {column} (char {fault.position})"

/-- Why a text has no value. -/
inductive Unreadable where
  | malformed (fault : Fault)
  | beyond (excess : Excess)
  deriving DecidableEq, Repr

/-- The fault of a text, with its place, or the bound that it goes beyond. -/
def Unreadable.message (u : Unreadable) (text : String) : String :=
  match u with
  | .malformed fault => fault.message text
  | .beyond excess => excess.message

/-- A text with a fault at a position. -/
def wrong {α : Type} (complaint : Complaint) (position : Nat) : Except Unreadable α :=
  .error (.malformed ⟨complaint, position⟩)

/-- A collection that is still open: the items so far, latest first, or the members so far and the
key whose value comes next. -/
inductive Frame where
  | items (done : List Value)
  | member (done : Members Value) (key : String)

/-- What the reader waits for: a value, a value or the end of an empty array, a key, a key or the
end of an empty object, the colon after a key, or what may follow a value. -/
inductive Mode where
  | value
  | firstItem
  | key (done : Members Value)
  | firstKey
  | colon (done : Members Value) (key : String)
  | after (v : Value)

/-- Whether no more collections may be opened. -/
def isFull (stack : List Frame) : Bool := Excess.textDepth ≤ stack.length

/-- Reads the tokens that are left, with the open collections innermost first. -/
def readTokens : List Located → List Frame → Mode → Except Unreadable Value
  -- The tokens of a text always close with an ending, so this case does not come up.
  | [], _, _ => wrong .expectingValue 0
  | ⟨t, at_⟩ :: rest, stack, mode =>
    let value : Except Unreadable Value :=
      match t with
      | .openObject =>
        if isFull stack then .error (.beyond .deepObject) else readTokens rest stack .firstKey
      | .openArray =>
        if isFull stack then .error (.beyond .deepArray)
        else readTokens rest (.items [] :: stack) .firstItem
      | .scalar v => readTokens rest stack (.after v)
      | .text s => readTokens rest stack (.after (.str s))
      | .broken fault => .error (.malformed fault)
      | .overlong digits => .error (.beyond (.longInteger digits))
      | _ => wrong .expectingValue at_
    let key (done : Members Value) : Except Unreadable Value :=
      match t with
      | .text s => readTokens rest stack (.colon done s)
      | .broken fault => .error (.malformed fault)
      | _ => wrong .expectingName at_
    match mode, t with
    | .value, _ => value
    -- An array is opened together with its frame, an object only with its first key.
    | .firstItem, .closeArray => readTokens rest (stack.drop 1) (.after (.arr []))
    | .firstItem, _ => value
    | .firstKey, .closeObject => readTokens rest stack (.after (.obj []))
    | .firstKey, _ => key []
    | .key done, _ => key done
    | .colon done k, .colon => readTokens rest (.member done k :: stack) .value
    | .colon _ _, _ => wrong .expectingColon at_
    | .after v, _ =>
      match stack, t with
      | [], .ending => .ok v
      | [], _ => wrong .extraData at_
      | .items done :: outer, .comma => readTokens rest (.items (v :: done) :: outer) .value
      | .items done :: outer, .closeArray => readTokens rest outer (.after (.arr (v :: done).reverse))
      | .member done k :: outer, .comma => readTokens rest outer (.key (done.set k v))
      | .member done k :: outer, .closeObject => readTokens rest outer (.after (.obj (done.set k v)))
      | _, _ => wrong .expectingComma at_

/-- The value that the characters of a JSON text stand for. -/
def readChars (cs : List Char) : Except Unreadable Value := readTokens (tokens 0 cs) [] .value

/-- The value that a JSON text stands for. -/
def read (text : String) : Except Unreadable Value :=
  match text.toList with
  | '\uFEFF' :: _ => wrong .byteOrderMark 0
  | cs => readChars cs

/-- A text without the byte order mark that may stand at its front where it came as bytes. -/
def withoutMark (s : String) : String :=
  match s.toList with
  | '\uFEFF' :: rest => String.ofList rest
  | _ => s

end Json

end Dashboards
