/-
# Comparing a prediction with the expected grid

A `Diff` says how a predicted grid differs from the expected one: which shapes, which cells,
which colors, and how severely.  Grids of different shapes have no cell differences; there
every expected cell counts as an error.
-/
import GridRepair.Grid
import GridRepair.Scalar

namespace GridRepair

/-- How a cell is wrong. -/
inductive Mismatch where
  /-- both colors are content -/
  | otherColor
  /-- content where background is expected -/
  | surplus
  /-- background where content is expected -/
  | lacking
deriving DecidableEq, Repr

/-- The kind of error when one color stands for another. -/
def Mismatch.of (predicted expected : Color) : Mismatch :=
  if predicted = background then .lacking
  else if expected = background then .surplus
  else .otherColor

/-- A wrong cell. -/
structure WrongCell where
  cell : Cell
  predicted : Color
  expected : Color
  kind : Mismatch
deriving DecidableEq, Repr

/-- The comparison of a predicted grid with the expected one. -/
structure Diff (S : Type) where
  predictedShape : Shape
  expectedShape : Shape
  sameShape : Bool
  exact : Bool
  /-- the share of right cells; zero for different shapes -/
  accuracy : S
  /-- the number of wrong cells; all expected cells for different shapes -/
  errors : Nat
  /-- zero for equal grids, one for different shapes, between them otherwise -/
  severity : S
  cells : List WrongCell
  /-- predicted but not expected -/
  extraColors : Palette
  /-- expected but not predicted -/
  missingColors : Palette

namespace Diff

variable {S : Type}

/-- The number of wrong cells of a kind. -/
def count (d : Diff S) (kind : Mismatch) : Nat := d.cells.countP fun c => c.kind = kind

/-- The wrong cells of two grids, row by row. -/
def wrongCells (predicted expected : Grid) : List WrongCell :=
  expected.shape.cells.filterMap fun p =>
    match predicted.get? p.row p.col, expected.get? p.row p.col with
    | some x, some y => if x = y then none else some ⟨p, x, y, .of x y⟩
    | _, _ => none

variable [Scalar S]

/-- Compare a predicted grid with the expected one. -/
def between (predicted expected : Grid) : Diff S :=
  let extra := predicted.palette.diff expected.palette
  let missing := expected.palette.diff predicted.palette
  if predicted.shape = expected.shape then
    let cells := wrongCells predicted expected
    let rate : S := Scalar.count cells.length / Scalar.count expected.area
    { predictedShape := predicted.shape
      expectedShape := expected.shape
      sameShape := true
      exact := cells.isEmpty
      accuracy := 1.0 - rate
      errors := cells.length
      severity := if cells.isEmpty then 0.0 else 0.1 + 0.8 * rate
      cells := cells
      extraColors := extra
      missingColors := missing }
  else
    { predictedShape := predicted.shape
      expectedShape := expected.shape
      sameShape := false
      exact := false
      accuracy := 0.0
      errors := expected.area
      severity := 1.0
      cells := []
      extraColors := extra
      missingColors := missing }

/-- The score of one pair: one for equal grids, zero for different shapes. -/
def score (d : Diff S) : S :=
  if d.exact then 1.0 else if d.sameShape then 0.1 + 0.8 * d.accuracy else 0.0

/-- The score of a program from the comparisons of its examples: their mean, scaled to
`Scalar.maxScore`, and zero without examples. -/
def total (ds : List (Diff S)) : S :=
  if ds.isEmpty then 0.0
  else Scalar.maxScore * Scalar.sum (ds.map score) / Scalar.count ds.length

/-- The mean share of right cells, and zero without examples. -/
def meanAccuracy (ds : List (Diff S)) : S :=
  if ds.isEmpty then 0.0
  else Scalar.sum (ds.map accuracy) / Scalar.count ds.length

end Diff

end GridRepair
