/-
# Numeric ranges

Bounds of the numbers the library exchanges with its callers and computes with: counts, integer
arguments, costs and color codes.

Results that can leave their range are checked where they arise.  A total cost beyond `maxCost`, a
multiple of a side beyond `maxCount` and a step index without a successor are breaches; copies of a
grid beyond `maxCount` rows or columns are refused; coordinates saturate; and a factor becomes an
integer argument by `wrapCount`.

All other sums and products count things that are there, so they fit: the area of a grid, the size
of an object and the wrong cells of a comparison are at most the number of stored cells, the size
and the depth of a program at most the number of its nodes, a place or a counter of a search at most
the number of programs that were scored, and a quotient or a common divisor at most what it divides.
These are computed in numbers without a bound.
-/

namespace GridRepair

/-- Largest count, index or side length. -/
def maxCount : Nat := 0xffffffffffffffff

/-- Smallest integer argument. -/
def minInt : Int := -0x8000000000000000

/-- Largest integer argument. -/
def maxInt : Int := 0x7fffffffffffffff

/-- Largest total cost of a program. -/
def maxCost : Nat := 0xffffffff

/-- Largest color code that can be written down; only codes up to `maxColor` are colors. -/
def maxColorCode : Nat := 255

/-- The nearest number in the range of integer arguments. -/
def saturate (x : Int) : Int := max minInt (min maxInt x)

/-- A count read as an integer argument: the residue modulo the number of counts that is
nearest to zero. -/
def wrapCount (n : Nat) : Int := Int.bmod n (maxCount + 1)

/-! ## Saturation -/

/-- Saturation changes nothing inside the range. -/
theorem saturate_of_mem {x : Int} (lo : minInt ≤ x) (hi : x ≤ maxInt) : saturate x = x := by
  simp only [saturate]
  omega

/-- A saturated number is in the range. -/
theorem saturate_mem (x : Int) : minInt ≤ saturate x ∧ saturate x ≤ maxInt := by
  simp only [saturate, minInt, maxInt]
  omega

/-- A small count is its own reading as an integer. -/
theorem wrapCount_of_le {n : Nat} (h : (n : Int) ≤ maxInt) : wrapCount n = n := by
  simp only [maxInt] at h
  simp only [wrapCount, maxCount]
  exact Int.bmod_eq_of_le_mul_two (by omega) (by omega)

end GridRepair
