import Dashboards.Json.Value
import Dashboards.Text.Character

/-!
# Limits on values

A value is copied and sent only as long as its collections are not nested too deeply, and it is sent
only if its texts can be encoded. A scalar and an empty collection have depth one, and a collection is
one deeper than the deepest value in it.
-/

namespace Dashboards

namespace Value

mutual

/-- How many values stand inside one another. -/
def depth : Value → Nat
  | .arr xs => depthOfItems xs + 1
  | .obj ms => depthOfMembers ms + 1
  | _ => 1
termination_by structural v => v

/-- The depth of the deepest item, zero where there is none. -/
def depthOfItems : List Value → Nat
  | [] => 0
  | x :: xs => max (depth x) (depthOfItems xs)
termination_by structural xs => xs

/-- The depth of the deepest member, zero where there is none. -/
def depthOfMembers : List (String × Value) → Nat
  | [] => 0
  | (_, v) :: rest => max (depth v) (depthOfMembers rest)
termination_by structural ms => ms

end

theorem depth_pos (v : Value) : 0 < v.depth := by cases v <;> simp [depth]

/-- Whether a value is nested no deeper than the room there is; without a bound there is room for
every value. -/
def fits (v : Value) (room : Option Nat) : Bool := room.all fun n => v.depth ≤ n

mutual

/-- Whether no key and no text in a value holds an unpaired half. -/
def isEncodable : Value → Bool
  | .str s => Dashboards.isEncodable s
  | .arr xs => areEncodableItems xs
  | .obj ms => areEncodableMembers ms
  | _ => true
termination_by structural v => v

def areEncodableItems : List Value → Bool
  | [] => true
  | x :: xs => isEncodable x && areEncodableItems xs
termination_by structural xs => xs

def areEncodableMembers : List (String × Value) → Bool
  | [] => true
  | (k, v) :: rest => Dashboards.isEncodable k && isEncodable v && areEncodableMembers rest
termination_by structural ms => ms

end

end Value

end Dashboards
