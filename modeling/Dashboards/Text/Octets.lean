import Dashboards.Text.Character

/-!
# Text as bytes

The UTF-8 form of a text, and the text that a list of bytes stands for. Where bytes come from a path
or a query, a sequence that is cut short or out of place stands for one replacement character. The
bytes of a JSON text are taken more strictly: the encoding is found out from the first of them, and
there is no text where one of them is out of place.
-/

namespace Dashboards

namespace Octets

def replacement : Char := '\uFFFD'

/-- A text in UTF-8. -/
def encoded (s : String) : List UInt8 := s.toList.flatMap String.utf8EncodeChar

/-- The bytes of a text. -/
def ofText (s : String) : List Nat := (encoded s).map (·.toNat)

/-- The text whose characters are numbered by bytes. -/
def latin (bytes : List UInt8) : String := String.ofList (bytes.map fun b => Char.ofNat b.toNat)

/-- For a byte that leads a sequence: the bits it carries, how many bytes follow it, and the bounds
of the first of them. Halves of surrogate pairs may be let through. -/
def lead? (halves : Bool) (b : Nat) : Option (Nat × Nat × Nat × Nat) :=
  if 0xC2 ≤ b ∧ b ≤ 0xDF then some (b - 0xC0, 1, 0x80, 0xBF)
  else if b = 0xE0 then some (0, 2, 0xA0, 0xBF)
  else if b = 0xED then some (0xD, 2, 0x80, if halves then 0xBF else 0x9F)
  else if 0xE1 ≤ b ∧ b ≤ 0xEF then some (b - 0xE0, 2, 0x80, 0xBF)
  else if b = 0xF0 then some (0, 3, 0x90, 0xBF)
  else if 0xF1 ≤ b ∧ b ≤ 0xF3 then some (b - 0xF0, 3, 0x80, 0xBF)
  else if b = 0xF4 then some (4, 3, 0x80, 0x8F)
  else none

/-- Adds the bits of the following bytes to a code, as far as they are in place. -/
def follow (low high code : Nat) : Nat → List Nat → Option Nat × List Nat
  | 0, bs => (some code, bs)
  | _ + 1, [] => (none, [])
  | n + 1, b :: bs =>
    if low ≤ b ∧ b ≤ high then follow 0x80 0xBF (code * 0x40 + b % 0x40) n bs else (none, b :: bs)

theorem length_follow (low high code n : Nat) (bs : List Nat) :
    (follow low high code n bs).2.length ≤ bs.length := by
  induction bs generalizing low high code n with
  | nil => cases n <;> simp [follow]
  | cons b bs ih =>
    cases n with
    | zero => simp [follow]
    | succ n =>
      simp only [follow]
      split
      · exact Nat.le_succ_of_le (ih ..)
      · simp

/-- The characters that bytes stand for, with a replacement for what is out of place. -/
def chars (bytes : List Nat) : List Char :=
  match bytes with
  | [] => []
  | b :: bs =>
    if b < 0x80 then Char.ofNat b :: chars bs
    else
      match lead? false b with
      | none => replacement :: chars bs
      | some (bits, count, low, high) =>
        have := length_follow low high bits count bs
        ((follow low high bits count bs).1.map Char.ofNat).getD replacement ::
          chars (follow low high bits count bs).2
termination_by bytes.length
decreasing_by all_goals simp_wf <;> omega

/-- The text that bytes stand for. -/
def toText (bytes : List Nat) : String := String.ofList (chars bytes)

/-! ## Bytes of JSON texts -/

/-- How the characters of a text are encoded; of several bytes the greatest may come first. -/
inductive Encoding where
  | utf8
  | utf16 (greatestFirst : Bool)
  | utf32 (greatestFirst : Bool)
  deriving DecidableEq, Repr

/-- The marks that may stand in front of a text to say how it is encoded. -/
def marks : List (List Nat × Encoding) :=
  [([0x00, 0x00, 0xFE, 0xFF], .utf32 true), ([0xFF, 0xFE, 0x00, 0x00], .utf32 false),
   ([0xFE, 0xFF], .utf16 true), ([0xFF, 0xFE], .utf16 false), ([0xEF, 0xBB, 0xBF], .utf8)]

/-- The encoding of a text without a mark, given by which of its first bytes are zero. -/
def unmarked : List Nat → Encoding
  | a :: b :: c :: d :: _ =>
    if a = 0 then (if b = 0 then .utf32 true else .utf16 true)
    else if b = 0 then (if c = 0 ∧ d = 0 then .utf32 false else .utf16 false)
    else .utf8
  | [a, b] => if a = 0 then .utf16 true else if b = 0 then .utf16 false else .utf8
  | _ => .utf8

/-- The characters of a text in UTF-8, in which halves of surrogate pairs are let through. -/
def fromUtf8? (bytes : List Nat) : Option (List Char) :=
  match bytes with
  | [] => some []
  | b :: bs =>
    if b < 0x80 then (Char.ofNat b :: ·) <$> fromUtf8? bs
    else
      match lead? true b with
      | none => none
      | some (bits, count, low, high) =>
        have := length_follow low high bits count bs
        match (follow low high bits count bs).1 with
        | some code => (unitChar code :: ·) <$> fromUtf8? (follow low high bits count bs).2
        | none => none
termination_by bytes.length
decreasing_by all_goals simp_wf <;> omega

/-- The number that bytes make, the least significant first unless it is said otherwise. -/
def number (greatestFirst : Bool) (bytes : List Nat) : Nat :=
  (if greatestFirst then bytes.reverse else bytes).foldr (fun b n => b + 0x100 * n) 0

/-- The characters of code units, halves of surrogate pairs being joined where they meet. -/
def ofUnits : List Nat → List Char
  | high :: low :: rest =>
    if (0xD800 ≤ high ∧ high < 0xDC00) ∧ 0xDC00 ≤ low ∧ low < 0xE000 then
      pairChar high low :: ofUnits rest
    else unitChar high :: ofUnits (low :: rest)
  | [unit] => [unitChar unit]
  | [] => []

/-- The code units of a text in UTF-16. -/
def units? (greatestFirst : Bool) : List Nat → Option (List Nat)
  | a :: b :: rest => (number greatestFirst [a, b] :: ·) <$> units? greatestFirst rest
  | [_] => none
  | [] => some []

/-- The characters of a text in UTF-32, in which halves of surrogate pairs are let through. -/
def fromUtf32? (greatestFirst : Bool) : List Nat → Option (List Char)
  | a :: b :: c :: d :: rest =>
    let code := number greatestFirst [a, b, c, d]
    if code < 0x110000 then (unitChar code :: ·) <$> fromUtf32? greatestFirst rest else none
  | [] => some []
  | _ => none

/-- The characters of an encoded text, if nothing in it is out of place. -/
def Encoding.decode? (e : Encoding) (bytes : List Nat) : Option (List Char) :=
  match e with
  | .utf8 => fromUtf8? bytes
  | .utf16 greatestFirst => ofUnits <$> units? greatestFirst bytes
  | .utf32 greatestFirst => fromUtf32? greatestFirst bytes

/-- The characters of a JSON text; a mark in front of it is no part of it. -/
def jsonChars? (bytes : List Nat) : Option (List Char) :=
  match marks.find? fun m => m.1.isPrefixOf bytes with
  | some (mark, e) => e.decode? (bytes.drop mark.length)
  | none => (unmarked bytes).decode? bytes

end Octets

end Dashboards
