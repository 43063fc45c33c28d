/-
# Faults

The reasons for which a grid, a primitive call, a program or an edit is refused.  A program
that runs and gives the wrong grid is no fault: that is what a `Diff` is for.

Each reason carries what its message names, and `Fault.message` is the only place where
wording is decided.  A `breach` stands apart from the others: there no answer exists, because
a total left its range or a grid would have lost its form.
-/
import GridRepair.Shape
import GridRepair.Path

namespace GridRepair

/-- Why rows of colors are not a grid. -/
inductive GridProblem where
  /-- a side is zero -/
  | empty (shape : Shape)
  /-- a row has another length than the first one -/
  | ragged (row length expected : Nat)
deriving DecidableEq, Repr

/-- Why an argument is out of the range a primitive can work with. -/
inductive ArgumentProblem where
  | outside (cell : Cell) (shape : Shape)
  | negative (index : Nat) (value : Int)
  | zero (parameter : String)
  | overflow (rows cols : Nat)
  | tooLarge (shape : Shape) (limit : Nat)
  | boxOutside (box : Box) (shape : Shape)
deriving DecidableEq, Repr

/-- Why an edit does not apply to a program. -/
inductive EditProblem where
  | noNode (location : Path)
  | notComposition (location : Path)
  | notPrimitive (location : Path)
  | otherPrimitive (name : String) (location : Path)
  | notInteger (index : Nat) (location : Path)
  | skipsArgument (index given : Nat) (location : Path)
  | pastEnd (index : Nat) (location : Path)
  | removesRoot
  | notRemovable (location : Path)
  | reordersRoot
  | noFollower (location : Path)
deriving DecidableEq, Repr

/-- What an argument of a primitive has to be. -/
inductive Expected where
  | int
  | color
  | grid
deriving DecidableEq, Repr

/-- A computation that has no answer at all. -/
inductive Breach where
  /-- a total cost beyond `maxCost` -/
  | cost
  /-- a step index without a successor -/
  | index
  /-- cells or sides that no grid has -/
  | grid
  /-- a multiple of a side beyond `maxCount`, or a fraction of zeroths -/
  | ratio
deriving DecidableEq, Repr

/-- Why an operation has no result. -/
inductive Fault where
  | invalidGrid (problem : GridProblem)
  | invalidColor (value : Int)
  | shapeMismatch (operation : String) (expected actual : Shape)
  | unknownPrimitive (name : String)
  | emptyComposition
  | arity (primitive : String) (least most given : Nat)
  | argumentType (primitive : String) (index : Nat) (expected : Expected)
  | invalidArgument (primitive : String) (problem : ArgumentProblem)
  | notLiteral (primitive : String) (index : Nat)
  | noGrid (step : String)
  | malformedEdit (problem : EditProblem)
  | breach (cause : Breach)
deriving DecidableEq, Repr

/-! ## Wording -/

/-- A problem with rows, in words. -/
def GridProblem.message : GridProblem → String
  | .empty shape => "grid must be at least 1x1, got " ++ shape.render
  | .ragged row length expected => s!"row {row} has {length} cells, expected {expected}"

/-- A problem with an argument, in words. -/
def ArgumentProblem.message : ArgumentProblem → String
  | .outside p shape => s!"({p.row}, {p.col}) is outside a " ++ shape.render ++ " grid"
  | .negative index value => s!"argument {index} must be non-negative, got {value}"
  | .zero parameter => parameter ++ " must be at least 1"
  | .overflow rows cols => s!"{rows}x{cols} repeats overflow the output size"
  | .tooLarge shape limit => "output " ++ shape.render ++ s!" exceeds {limit}x{limit}"
  | .boxOutside b shape =>
    "box " ++ b.shape.render ++ s!" at ({b.row}, {b.col}) exceeds " ++ shape.render ++ " grid"

/-- A problem with an edit, in words. -/
def EditProblem.message : EditProblem → String
  | .noNode location => "no node at " ++ location.render
  | .notComposition location => location.render ++ " is not a composition"
  | .notPrimitive location => location.render ++ " is not a primitive"
  | .otherPrimitive name location => "no " ++ name ++ " at " ++ location.render
  | .notInteger index location => s!"argument {index} at " ++ location.render ++ " is not an int"
  | .skipsArgument index given location =>
    s!"argument {index} skips past {given} given at " ++ location.render
  | .pastEnd index location => s!"insert index {index} past end of " ++ location.render
  | .removesRoot => "cannot remove the root"
  | .notRemovable location => "cannot remove " ++ location.render
  | .reordersRoot => "cannot reorder the root"
  | .noFollower location => "no step after " ++ location.render

/-- What an argument has to be, in words. -/
def Expected.render : Expected → String
  | .int => "an int"
  | .color => "a color"
  | .grid => "a grid"

/-- A breach, in words. -/
def Breach.message : Breach → String
  | .cost => "total cost out of range"
  | .index => "step index out of range"
  | .grid => "result is not a grid"
  | .ratio => "multiple of a side out of range"

/-- A fault, in words. -/
def Fault.message : Fault → String
  | .invalidGrid problem => "invalid grid: " ++ problem.message
  | .invalidColor value => s!"color {value} is outside the palette 0..=9"
  | .shapeMismatch operation expected actual =>
    operation ++ ": dimension mismatch, expected " ++ expected.render ++ ", got " ++ actual.render
  | .unknownPrimitive name => "unknown primitive: " ++ name
  | .emptyComposition => "composition must have at least one step"
  | .arity primitive least most given =>
    primitive ++ s!": expected between {least} and {most} arguments, got {given}"
  | .argumentType primitive index expected =>
    primitive ++ s!": argument {index} must be " ++ expected.render
  | .invalidArgument primitive problem => primitive ++ ": " ++ problem.message
  | .notLiteral primitive index => primitive ++ s!": argument {index} is not a literal"
  | .noGrid step => "step `" ++ step ++ "` did not produce a grid"
  | .malformedEdit problem => "malformed edit: " ++ problem.message
  | .breach cause => cause.message

end GridRepair
