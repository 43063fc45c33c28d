/-
# Written forms of grids and values

A grid is written as the list of its rows, a cell as row and column, a box as a record, and a
value as a variant.  Reading a grid checks it, so that only valid grids are read.
-/
import GridRepair.Json.Decode
import GridRepair.Value

namespace GridRepair

/-! ## Shapes, cells and boxes -/

/-- The written form of a shape. -/
def Shape.toJson (s : Shape) : Json := .array [.nat s.height, .nat s.width]

/-- The shape with the given written form. -/
def Shape.ofJson? (j : Json) : Option Shape :=
  (Json.pair? Json.nat? Json.nat? j).map fun (height, width) => ⟨height, width⟩

/-- The written form of a cell. -/
def Cell.toJson (p : Cell) : Json := .array [.nat p.row, .nat p.col]

/-- The cell with the given written form. -/
def Cell.ofJson? (j : Json) : Option Cell :=
  (Json.pair? Json.nat? Json.nat? j).map fun (row, col) => ⟨row, col⟩

/-- The written form of a box. -/
def Box.toJson (b : Box) : Json :=
  .object [("row", .nat b.row), ("col", .nat b.col), ("height", .nat b.height),
    ("width", .nat b.width)]

/-- The box with the given written form; its sides may be zero. -/
def Box.ofJson? (j : Json) : Option Box := do
  let r ← Json.record? ["row", "col", "height", "width"] j
  let row ← r.required? "row" Json.nat?
  let col ← r.required? "col" Json.nat?
  let height ← r.required? "height" Json.nat?
  let width ← r.required? "width" Json.nat?
  pure ⟨row, col, height, width⟩

/-! ## Grids -/

/-- The written form of a list of colors. -/
def Palette.colorsToJson (cs : List Color) : Json := .list Json.nat cs

/-- The list of color codes with the given written form. -/
def Palette.colorsOfJson? (j : Json) : Option (List Color) := Json.list? Json.colorCode? j

/-- The written form of a palette. -/
def Palette.toJson (s : Palette) : Json := colorsToJson s.colors

/-- The palette of a written list of color codes. -/
def Palette.ofJson? (j : Json) : Option Palette := (colorsOfJson? j).map ofList

/-- The written form of a grid. -/
def Grid.toJson (g : Grid) : Json := .list Palette.colorsToJson g.rows

/-- The rows of color codes with the given written form. -/
def Grid.rowsOfJson? (j : Json) : Option (List (List Color)) :=
  Json.list? Palette.colorsOfJson? j

/-- The grid with the given written form. -/
def Grid.ofJson? (j : Json) : Option Grid := do
  let rows ← rowsOfJson? j
  match ofRows rows with
  | .ok g => some g
  | .error _ => none

/-! ## Values -/

/-- The written form of a value. -/
def Value.toJson : Value → Json
  | .int n => .variant "Int" (.int n)
  | .bool b => .variant "Bool" (.bool b)
  | .grid g => .variant "Grid" g.toJson
  | .colors cs => .variant "Colors" (Palette.colorsToJson cs)
  | .positions ps => .variant "Positions" (.list Cell.toJson ps)

/-- The value with the given written form. -/
def Value.ofJson? (j : Json) : Option Value := do
  match ← Json.variant? j with
  | ("Int", some c) => (Json.int? c).map .int
  | ("Bool", some c) => (Json.bool? c).map .bool
  | ("Grid", some c) => (Grid.ofJson? c).map .grid
  | ("Colors", some c) => (Palette.colorsOfJson? c).map .colors
  | ("Positions", some c) => (Json.list? Cell.ofJson? c).map .positions
  | _ => none

end GridRepair
