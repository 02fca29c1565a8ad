import Dashboards.Json.Token
import Dashboards.Text.Octets

/-!
# Targets of requests

A target is a path and a query. Both may hold bytes written as a percent sign and two hexadecimal
digits; they are decoded before anything else is done, so that an encoded slash separates segments.
-/

namespace Dashboards

namespace Service

/-- Decodes the bytes that are written with percent signs. A sign without two digits behind it
stands for itself. -/
def percentDecoded (bytes : List Nat) : List Nat :=
  let digit? (b : Nat) : Option Nat := Json.hexDigit? (Char.ofNat b)
  match bytes with
  | 0x25 :: a :: b :: rest =>
    match digit? a, digit? b with
    | some high, some low => (high * 16 + low) :: percentDecoded rest
    | _, _ => 0x25 :: percentDecoded (a :: b :: rest)
  | b :: rest => b :: percentDecoded rest
  | [] => []

/-- A text with percent signs decoded. -/
def decodedText (s : String) : String := Octets.toText (percentDecoded (Octets.ofText s))

/-- Where a request is sent to. -/
structure Target where
  path : String
  query : List (String × String)

namespace Target

/-- A part of a query, in which a plus sign stands for a space. -/
def queryPart (cs : List Char) : String :=
  decodedText (String.ofList (cs.map fun c => if c == '+' then ' ' else c))

/-- The characters before the first `c`, and those behind it if there is one. -/
def cut (c : Char) (cs : List Char) : List Char × Option (List Char) :=
  match cs.dropWhile (· ≠ c) with
  | [] => (cs, none)
  | _ :: rest => (cs.takeWhile (· ≠ c), some rest)

/-- The parameters of a query; a name without an equals sign has an empty value. -/
def parameters (query : String) : List (String × String) :=
  ((query.splitOn "&").filter (· ≠ "")).map fun part =>
    let (name, value) := cut '=' part.toList
    (queryPart name, queryPart (value.getD []))

/-- Reads a target; what follows a number sign is no part of it. -/
def parse (s : String) : Target :=
  let (whole, _) := cut '#' s.toList
  let (path, query) := cut '?' whole
  ⟨decodedText (String.ofList path), parameters (String.ofList (query.getD []))⟩

/-- The segments of a path, the first of them the one before its first slash. -/
def segments (t : Target) : List String := t.path.splitOn "/"

/-- The value of a parameter; of several the last one counts. -/
def parameter? (t : Target) (name : String) : Option String := t.query.reverse.lookup name

end Target

end Service

end Dashboards
