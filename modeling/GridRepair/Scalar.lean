/-
# The numbers of scores

Scores are computed with the four operations, comparison and decimal constants, and with
nothing else.  `Scalar` collects these, so that one set of definitions serves floating-point
scores as well as exact ones; the order of operations is part of each definition.
-/

namespace GridRepair

/-- Numbers that scores can be computed with. -/
class Scalar (S : Type) extends Add S, Sub S, Mul S, Div S, LT S, OfScientific S where
  /-- a count as a number -/
  count : Nat → S
  decidableLT : DecidableLT S

instance Scalar.decidable {S : Type} [Scalar S] : DecidableLT S := Scalar.decidableLT

instance Scalar.float : Scalar Float where
  count n := Float.ofNat n
  decidableLT := inferInstanceAs (DecidableLT Float)

instance Scalar.exact : Scalar Rat where
  count n := (n : Rat)
  decidableLT := inferInstanceAs (DecidableLT Rat)

namespace Scalar

variable {S : Type} [Scalar S]

/-- The sum of a list, from left to right. -/
def sum (xs : List S) : S := xs.foldl (fun total x => total + x) 0.0

/-- The score of a program that solves every example. -/
def maxScore : S := 100.0

/-- Scores that differ by no more than this count as equal. -/
def tolerance : S := 1e-9

/-- The first score is higher, by more than the tolerance. -/
def exceeds (a b : S) : Bool := decide (tolerance < a - b)

end Scalar

end GridRepair
