/-!
# Excess

Texts and documents of any size are taken on, with two exceptions: an integer that is read from a
text has a bounded number of digits, and collections are nested to a bounded depth. Going beyond
such a bound is no fault of a text or a patch; whoever meets it gives up what it was doing.
-/

namespace Dashboards

/-- What goes beyond a bound. -/
inductive Excess where
  | longInteger (digits : Nat)
  | deepArray
  | deepObject
  | deepDocument
  deriving DecidableEq, Repr

namespace Excess

/-- Whether the bound is one on nesting. -/
def isDeep : Excess → Bool
  | .longInteger _ => false
  | .deepArray | .deepObject | .deepDocument => true

/-- How many digits an integer has at most that is read from a text. -/
def digitLimit : Nat := 4300

/-- How deep the collections of a JSON text are nested at most. -/
def textDepth : Nat := 985

/-- How deep the collections of a document are nested at most that is to be copied. -/
def copyDepth : Nat := 480

/-- How many values at most stand inside one another in a response. -/
def responseDepth : Nat := 255

def message : Excess → String
  | .longInteger digits =>
    s!"Exceeds the limit ({digitLimit} digits) for integer string conversion: " ++
      s!"value has {digits} digits; use sys.set_int_max_str_digits() to increase the limit"
  | .deepArray =>
    "maximum recursion depth exceeded while decoding a JSON array from a unicode string"
  | .deepObject =>
    "maximum recursion depth exceeded while decoding a JSON object from a unicode string"
  | .deepDocument => "maximum recursion depth exceeded"

end Excess

end Dashboards
