/-
# Invariants of a task

What the examples of a task have in common: the shape of the outputs, the ratio of output to
input sides, the colors on either side.  Invariants depend on the task alone; predictions are
checked against them.

Sides are multiplied with the terms of a ratio in the range of counts: a product beyond `maxCount`
is a breach, and so is every check that needs it.
-/
import GridRepair.Limits
import GridRepair.Task

namespace GridRepair

/-! ## Ratios of sides -/

/-- A numerator and a denominator. -/
structure Fraction where
  num : Nat
  den : Nat
deriving DecidableEq, Repr

namespace Fraction

/-- A fraction in lowest terms. -/
def reduce (num den : Nat) : Fraction :=
  let d := max (Nat.gcd num den) 1
  ⟨num / d, den / d⟩

/-- The multiple of a count by the fraction, if it is a count. -/
def scale? (q : Fraction) (n : Nat) : Except Fault (Option Nat) :=
  if q.den = 0 ∨ maxCount < n * q.num then .error (.breach .ratio)
  else .ok (if n * q.num % q.den = 0 then some (n * q.num / q.den) else none)

/-- The fraction one. -/
def one : Fraction := ⟨1, 1⟩

end Fraction

/-- The ratio of output to input sides. -/
structure Ratio where
  height : Fraction
  width : Fraction
deriving DecidableEq, Repr

namespace Ratio

/-- The ratio from an input shape to an output shape. -/
def between (input output : Shape) : Ratio :=
  ⟨.reduce output.height input.height, .reduce output.width input.width⟩

/-- The output shape for an input shape, if it has whole sides.  The width is not looked at when
the height is no whole number. -/
def shapeFor? (q : Ratio) (input : Shape) : Except Fault (Option Shape) := do
  match ← q.height.scale? input.height with
  | none => pure none
  | some height => do
    let width? ← q.width.scale? input.width
    pure (width?.map fun width => ⟨height, width⟩)

/-- The whole number by which both sides grow, if there is one. -/
def factor? (q : Ratio) : Option Nat :=
  if q.height.den = 1 ∧ q.width.den = 1 ∧ q.height.num = q.width.num then some q.height.num
  else none

/-- Both sides stay as they are. -/
def isIdentity (q : Ratio) : Bool := q.height = Fraction.one && q.width = Fraction.one

end Ratio

/-! ## Invariants -/

/-- A fact that the examples of a task can have in common. -/
inductive Invariant where
  | fixedShape
  | ratio
  | inputPalette
  | outputPalette
  | palettePreserved
deriving DecidableEq, Repr

/-- All invariants, in their usual order. -/
def Invariant.all : List Invariant :=
  [.fixedShape, .ratio, .inputPalette, .outputPalette, .palettePreserved]

/-- The name of an invariant. -/
def Invariant.name : Invariant → String
  | .fixedShape => "fixed_output_dims"
  | .ratio => "dimension_ratio"
  | .inputPalette => "input_palette"
  | .outputPalette => "output_palette"
  | .palettePreserved => "palette_preserved"

/-- What the examples of a task have in common. -/
structure Invariants where
  /-- the shape of all outputs -/
  fixedShape? : Option Shape
  /-- the ratio of all pairs -/
  ratio? : Option Ratio
  /-- the colors of the inputs -/
  inputPalette : Palette
  /-- the colors of the outputs -/
  outputPalette : Palette
  /-- every output has exactly the colors of its input -/
  palettePreserved : Bool
deriving DecidableEq

namespace Invariants

/-- Nothing in common, as without examples. -/
def none : Invariants := ⟨.none, .none, Palette.empty, Palette.empty, false⟩

/-- The ratio of an example. -/
def ratioOf (e : Example) : Ratio := .between e.input.shape e.output.shape

/-- The invariants of a list of examples. -/
def ofExamples : List Example → Invariants
  | [] => none
  | e :: es =>
    { fixedShape? :=
        if es.all fun x => x.output.shape = e.output.shape then some e.output.shape else .none
      ratio? := if es.all fun x => ratioOf x = ratioOf e then some (ratioOf e) else .none
      inputPalette := (e :: es).foldl (fun s x => s.union x.input.palette) Palette.empty
      outputPalette := (e :: es).foldl (fun s x => s.union x.output.palette) Palette.empty
      palettePreserved := (e :: es).all fun x => x.input.palette = x.output.palette }

/-- The invariants of a task. -/
def ofTask (t : Task) : Invariants := ofExamples t.examples

/-- The task exhibits the invariant. -/
def exhibits (s : Invariants) : Invariant → Bool
  | .fixedShape => s.fixedShape?.isSome
  | .ratio => s.ratio?.isSome
  | .inputPalette => !s.inputPalette.isEmpty
  | .outputPalette => !s.outputPalette.isEmpty
  | .palettePreserved => s.palettePreserved

/-- The invariants that the task exhibits. -/
def present (s : Invariants) : List Invariant := Invariant.all.filter s.exhibits

/-- The shape that the ratio of the task asks for, if there is one. -/
def ratioShape? (s : Invariants) (input : Grid) : Except Fault (Option Shape) :=
  match s.ratio? with
  | .none => .ok .none
  | some q => q.shapeFor? input.shape

/-- A prediction for an input agrees with an invariant. -/
def holds (s : Invariants) (input predicted : Grid) : Invariant → Except Fault Bool
  | .fixedShape => .ok (s.fixedShape? = some predicted.shape)
  | .ratio => (s.ratioShape? input).map fun shape? => shape? = some predicted.shape
  | .inputPalette => .ok (predicted.palette.subset s.inputPalette)
  | .outputPalette => .ok (predicted.palette.subset s.outputPalette)
  | .palettePreserved => .ok (s.palettePreserved && predicted.palette = input.palette)

/-- All predictions agree with an invariant.  They are looked at in order, up to the first one that
does not. -/
def holdsThroughout (s : Invariants) (i : Invariant) : List (Example × Grid) → Except Fault Bool
  | [] => .ok true
  | (e, out) :: rest => do
    if ← s.holds e.input out i then s.holdsThroughout i rest else pure false

/-- The members of a list that pass a check. -/
def passing (check : Invariant → Except Fault Bool) : List Invariant → Except Fault (List Invariant)
  | [] => .ok []
  | i :: is => do
    let kept ← check i
    let rest ← passing check is
    pure (if kept then i :: rest else rest)

/-- The invariants of the task that all predictions agree with. -/
def satisfied (s : Invariants) (pairs : List (Example × Grid)) : Except Fault (List Invariant) :=
  passing (fun i => s.holdsThroughout i pairs) s.present

/-- The invariants on shapes that a prediction breaks. -/
def brokenShapes (s : Invariants) (input predicted : Grid) : Except Fault (List Invariant) :=
  passing (fun i => (s.holds input predicted i).map (!·)) ([.fixedShape, .ratio].filter s.exhibits)

end Invariants

end GridRepair
