import Dashboards.Excess
import Dashboards.Json.Display

/-!
# Pointers

A pointer names a place in a JSON tree by the keys on the way to it, written as `/key/key`. Inside
a key `~1` stands for `/` and `~0` for `~`. The root is written as the empty text or as `/`. A key
is used as a member name on an object; on an array it has to be an index, or `-` for the place after
the last item.
-/

namespace Dashboards

/-- A place in a tree: the keys on the way to it. -/
structure Pointer where
  keys : List String
  deriving DecidableEq

namespace Pointer

/-- Why something is not a pointer. -/
inductive Fault where
  | notText (kind : String)
  | noLeadingSlash (text : String)
  | badEscape (text : String)
  deriving DecidableEq

def Fault.message : Fault → String
  | .notText kind => s!"Pointer must be a string, got {kind}"
  | .noLeadingSlash text => s!"Pointer must start with '/': {showText text}"
  | .badEscape text => s!"Invalid escape sequence in pointer: {showText text}"

/-- Cuts a text at every slash; the pieces are one more than the slashes. -/
def splitSlash : List Char → List (List Char)
  | [] => [[]]
  | '/' :: rest => [] :: splitSlash rest
  | c :: rest =>
    match splitSlash rest with
    | [] => [[c]]
    | piece :: pieces => (c :: piece) :: pieces

/-- The key that a piece of a pointer stands for, unless a `~` in it is no escape. -/
def decodeKey? : List Char → Option (List Char)
  | [] => some []
  | '~' :: '0' :: rest => (decodeKey? rest).map ('~' :: ·)
  | '~' :: '1' :: rest => (decodeKey? rest).map ('/' :: ·)
  | c :: rest => if c = '~' then none else (decodeKey? rest).map (c :: ·)

def encodeChar : Char → List Char
  | '~' => ['~', '0']
  | '/' => ['~', '1']
  | c => [c]

/-- A key as it is written in a pointer. -/
def encodeKey (key : String) : String := String.ofList (key.toList.flatMap encodeChar)

def parse (text : String) : Except Fault Pointer :=
  match text.toList with
  | [] | ['/'] => .ok ⟨[]⟩
  | '/' :: rest =>
    match (splitSlash rest).mapM decodeKey? with
    | some keys => .ok ⟨keys.map String.ofList⟩
    | none => .error (.badEscape text)
  | _ => .error (.noLeadingSlash text)

/-- Reads a pointer from any value; only a text can be one. -/
def ofValue (v : Value) : Except Fault Pointer :=
  match v with
  | .str text => parse text
  | v => .error (.notText v.kindName)

/-- The written form; the root is empty. -/
def text (p : Pointer) : String := String.join (p.keys.map fun k => "/" ++ encodeKey k)

instance : ToString Pointer := ⟨text⟩

def isRoot (p : Pointer) : Bool := p.keys.isEmpty

/-- The pointer without its last key; the root is its own parent. -/
def parent (p : Pointer) : Pointer := ⟨p.keys.dropLast⟩

def last? (p : Pointer) : Option String := p.keys.getLast?

/-- Whether `q` equals `p` or is one of its ancestors. -/
def startsWith (p q : Pointer) : Bool := q.keys.isPrefixOf p.keys

end Pointer

/-- The number written by decimal digits without a leading zero. -/
def canonicalNumber? : List Char → Option Nat
  | ['0'] => some 0
  | c :: rest =>
    if '1' ≤ c ∧ c ≤ '9' ∧ rest.all Char.isDigit then
      some ((c :: rest).foldl (fun n d => n * 10 + (d.toNat - 48)) 0)
    else none
  | [] => none

/-- The array index that a key stands for: a number without leading zeros, behind which one line
break is let through. -/
def indexOf? (key : String) : Option Nat :=
  match key.toList.reverse with
  | '\n' :: front => canonicalNumber? front.reverse
  | _ => canonicalNumber? key.toList

/-- The digits of a key that would be an index if it did not have too many of them. -/
def overlongIndex? (key : String) : Option Nat :=
  let digits := key.toList.filter Char.isDigit
  if Excess.digitLimit < digits.length ∧ (indexOf? key).isSome then some digits.length else none

/-- The key that stands for the place after the last item of an array. -/
def appendKey : String := "-"

/-- The value at the end of the keys. -/
def Value.at? : Value → List String → Option Value
  | v, [] => some v
  | .obj ms, k :: ks => (Members.get? ms k).bind (·.at? ks)
  | .arr xs, k :: ks => ((indexOf? k).bind (xs[·]?)).bind (·.at? ks)
  | _, _ :: _ => none
termination_by structural _ keys => keys

/-- The digits of the first overlong index that is met on the way along the keys. -/
def Value.overlongAt? : Value → List String → Option Nat
  | _, [] => none
  | .obj ms, k :: ks => (Members.get? ms k).bind (·.overlongAt? ks)
  | .arr xs, k :: ks =>
    match overlongIndex? k with
    | some digits => some digits
    | none => ((indexOf? k).bind (xs[·]?)).bind (·.overlongAt? ks)
  | _, _ :: _ => none
termination_by structural _ keys => keys

/-- The value that a pointer resolves to. -/
def Value.resolve? (v : Value) (p : Pointer) : Option Value := v.at? p.keys

end Dashboards
