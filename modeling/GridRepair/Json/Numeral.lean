/-
# Numerals

A number as it is written in a JSON text: its sign, its digits and its power of ten.  Integers
are told apart from decimals by their spelling, not by their value.

A numeral is read as a floating-point number in two steps: digits are collected as long as
they make a count, and the collected number is multiplied or divided by one power of ten.
-/
import GridRepair.Limits

namespace GridRepair

/-- A written number. -/
inductive Numeral where
  /-- digits without point and exponent -/
  | integer (negative : Bool) (digits : Nat)
  /-- the digits before and after the point, and the exponent -/
  | decimal (negative : Bool) (whole : Nat) (fraction : List Nat) (exponent : Int)
deriving DecidableEq, Repr

namespace Numeral

/-- The numeral of an integer. -/
def ofInt (n : Int) : Numeral := .integer (decide (n < 0)) n.natAbs

/-- The integer that is written; a zero with a sign is none. -/
def int? : Numeral → Option Int
  | .integer false n => some n
  | .integer true n => if n = 0 then none else some (-n)
  | .decimal .. => none

/-- The written form of an integer reads back. -/
@[simp] theorem int?_ofInt (n : Int) : (ofInt n).int? = some n := by
  by_cases h : n < 0
  · have hz : n.natAbs ≠ 0 := by omega
    simp only [ofInt, h, decide_true, int?, if_neg hz, Option.some.injEq]
    omega
  · simp only [ofInt, h, decide_false, int?, Option.some.injEq]
    omega

/-- The text of a numeral. -/
def render : Numeral → String
  | .integer negative n => (if negative then "-" else "") ++ toString n
  | .decimal negative whole fraction exponent =>
    (if negative then "-" else "") ++ toString whole ++
      (if fraction.isEmpty then "" else "." ++ String.join (fraction.map toString)) ++
      "e" ++ toString exponent

/-! ## Floating-point value -/

/-- Drop last digits, counting them, until the number is a count. -/
def shorten (n : Nat) : Nat × Nat :=
  if n ≤ maxCount then (n, 0)
  else
    let rest := shorten (n / 10)
    (rest.1, rest.2 + 1)
termination_by n
decreasing_by
  simp only [maxCount] at *
  omega

/-- Append digits of lower and lower weight as long as the number stays a count. -/
def absorb : Nat → Int → List Nat → Nat × Int
  | n, weight, [] => (n, weight)
  | n, weight, d :: ds =>
    if n * 10 + d ≤ maxCount then absorb (n * 10 + d) (weight - 1) ds else (n, weight)

/-- A power of ten. -/
def powerOfTen (e : Nat) : Float := Float.ofScientific 1 false e

/-- The product of a number and a power of ten, if it is finite.  Powers beyond the range of
numbers are divided out in steps. -/
def shift (x : Float) (e : Int) : Option Float :=
  if e.natAbs ≤ 308 then
    if 0 ≤ e then
      let y := x * powerOfTen e.natAbs
      if y.isInf then none else some y
    else some (x / powerOfTen e.natAbs)
  else if x == 0.0 then some x
  else if 0 ≤ e then none
  else shift (x / powerOfTen 308) (e + 308)
termination_by e.natAbs

/-- The floating-point value, if it is finite. -/
def float? : Numeral → Option Float
  | .integer negative n =>
    let (digits, dropped) := shorten n
    (shift (Float.ofNat digits) dropped).map fun x => if negative then -x else x
  | .decimal negative whole fraction exponent =>
    let (digits, dropped) := shorten whole
    let (digits, weight) := absorb digits dropped fraction
    (shift (Float.ofNat digits) (weight + exponent)).map fun x => if negative then -x else x

end Numeral

end GridRepair
