import Dashboards.Decimal.Binary

/-!
# Numbers

A number is an integer of any size or a float, as its text was written. Two numbers are compared by
the exact values they stand for, so an integer is never rounded to be compared with a float. What is
read as no number at all keeps a mark that tells it from others of its kind.
-/

namespace Dashboards

/-- A number of a document: an integer of unlimited size, a binary64 float, or a NaN that was read.
Copies of a NaN have its mark, and NaNs that were read apart have marks of their own. -/
inductive Number where
  | int (n : Int)
  | float (x : Float)
  | undefined (mark : Nat)
  deriving DecidableEq

/-- A point of the extended rational line, or no point at all. -/
inductive Extended where
  | undefined
  | below
  | finite (r : Rat)
  | above
  deriving DecidableEq

namespace Extended

/-- The order of the line; nothing is less or greater than `undefined`. -/
def lt : Extended → Extended → Bool
  | .below, .finite _ | .below, .above | .finite _, .above => true
  | .finite a, .finite b => a < b
  | _, _ => false

/-- Equality of points; `undefined` equals nothing. -/
def same : Extended → Extended → Bool
  | .undefined, _ => false
  | a, b => a = b

theorem same_iff {a b : Extended} : same a b = true ↔ a = b ∧ a ≠ .undefined := by
  cases a <;> simp [same]

end Extended

namespace Number

/-- The exact value of a number. -/
def exact : Number → Extended
  | .int n => .finite n
  | .float x =>
    match Binary.ofFloat x with
    | .undefined => .undefined
    | .infinite negative => if negative then .below else .above
    | .finite negative m q => .finite (Binary.rational negative m q)
  | .undefined _ => .undefined

/-- Equality of exact values: `1` and `1.0` are the same, and a NaN is not the same as itself. -/
def same (a b : Number) : Bool := a.exact.same b.exact

def lt (a b : Number) : Bool := a.exact.lt b.exact

def isNaN (a : Number) : Bool := a.exact = .undefined

def isFinite (a : Number) : Bool :=
  match a.exact with
  | .finite _ => true
  | _ => false

/-- Whether two numbers are one NaN and a copy of it. -/
def isCopy : Number → Number → Bool
  | .undefined a, .undefined b => a == b
  | _, _ => false

theorem same_iff {a b : Number} : same a b = true ↔ a.exact = b.exact ∧ a.isNaN = false := by
  simp [same, Extended.same_iff, isNaN]

theorem same_refl {a : Number} (h : a.isNaN = false) : same a a = true := same_iff.2 ⟨rfl, h⟩

theorem same_symm {a b : Number} (h : same a b = true) : same b a = true := by
  obtain ⟨h, hn⟩ := same_iff.1 h
  exact same_iff.2 ⟨h.symm, by simpa [isNaN, h] using hn⟩

theorem same_trans {a b c : Number} (h : same a b = true) (h' : same b c = true) :
    same a c = true := by
  obtain ⟨h, hn⟩ := same_iff.1 h
  exact same_iff.2 ⟨h.trans (same_iff.1 h').1, hn⟩

end Number

end Dashboards
