import Dashboards.Metrics.Arithmetic

/-!
# Sums of columns

Floats are summed pairwise: a long list by halves, a list of up to 128 with eight running sums side
by side, and a short one from left to right. A column of integers is summed as one machine word.
-/

namespace Dashboards

/-- Adds each block of eight values to eight running sums, and what is left over to their total. -/
def sumBlocks (r : Float × Float × Float × Float × Float × Float × Float × Float) :
    List Float → Float
  | a :: b :: c :: d :: e :: f :: g :: h :: rest =>
    let (r0, r1, r2, r3, r4, r5, r6, r7) := r
    sumBlocks (r0 + a, r1 + b, r2 + c, r3 + d, r4 + e, r5 + f, r6 + g, r7 + h) rest
  | rest =>
    let (r0, r1, r2, r3, r4, r5, r6, r7) := r
    rest.foldl (· + ·) (((r0 + r1) + (r2 + r3)) + ((r4 + r5) + (r6 + r7)))

/-- The sum of at most 128 values. -/
def sumShort : List Float → Float
  | a :: b :: c :: d :: e :: f :: g :: h :: rest => sumBlocks (a, b, c, d, e, f, g, h) rest
  | xs => xs.foldl (· + ·) 0.0

/-- The number of values in the first half of a long list, a multiple of eight. -/
def firstHalf (n : Nat) : Nat := n / 2 - n / 2 % 8

def pairwiseSum (xs : List Float) : Float :=
  if 128 < xs.length then
    pairwiseSum (xs.take (firstHalf xs.length)) + pairwiseSum (xs.drop (firstHalf xs.length))
  else sumShort xs
termination_by xs.length
decreasing_by all_goals simp only [List.length_take, List.length_drop, firstHalf]; omega

/-- The mean of a list of values. -/
def mean (xs : List Float) : Float := pairwiseSum xs / Float.ofNat xs.length

/-- The standard deviation of a whole population around its mean. -/
def deviation (xs : List Float) : Float :=
  let m := mean xs
  (mean (xs.map fun x => (x - m) * (x - m))).sqrt

namespace Number

/-- The integers of a column in which nothing else stands. -/
def integers? : List (Option Number) → Option (List Int)
  | [] => some []
  | some (.int n) :: rest => (integers? rest).map (n :: ·)
  | _ => none

/-- The number of machine words of 64 bits. -/
def wordCount : Nat := 18446744073709551616

/-- The sum of integers as a signed or an unsigned machine word, if they all fit into one. -/
def wordSum? (ns : List Int) : Option Int :=
  let words : Int := wordCount
  let sum := ns.foldl (· + ·) 0
  if ns.all fun n => -words ≤ 2 * n ∧ 2 * n < words then some (sum.bmod wordCount)
  else if ns.all fun n => 0 ≤ n ∧ n < words then some (sum % words)
  else none

/-- The total of a column. Missing cells count as zero, and a NaN makes the total a NaN. -/
def total (cells : List (Option Number)) : Calculated Number :=
  if cells.any fun c => c.any (·.isNaN) then .ok (.float (0.0 / 0.0))
  else
    match (integers? cells).bind wordSum? with
    | some n => .ok (.float (Float.ofInt n))
    | none => do
      let xs ← cells.mapM fun c => (c.map (·.toFloat)).getD (.ok 0.0)
      pure (.float (pairwiseSum xs))

end Number

end Dashboards
