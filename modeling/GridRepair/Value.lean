/-
# Values

What primitives take as arguments and give as results.
-/
import GridRepair.Grid

namespace GridRepair

/-- A literal argument or a result. -/
inductive Value where
  | int (value : Int)
  | bool (value : Bool)
  | grid (value : Grid)
  | colors (value : List Color)
  | positions (value : List Cell)
deriving DecidableEq

namespace Value

/-- The integer, if the value is one. -/
def int? : Value → Option Int
  | .int n => some n
  | _ => none

/-- The grid, if the value is one. -/
def grid? : Value → Option Grid
  | .grid g => some g
  | _ => none

/-- The name of the kind of value. -/
def kind : Value → String
  | .int _ => "int"
  | .bool _ => "bool"
  | .grid _ => "grid"
  | .colors _ => "colors"
  | .positions _ => "positions"

/-- A list of colors in brackets. -/
def renderColors (cs : List Color) : String :=
  "[" ++ ", ".intercalate (cs.map toString) ++ "]"

/-- A value in words: grids and positions are only measured. -/
def render : Value → String
  | .int n => toString n
  | .bool b => if b then "true" else "false"
  | .grid g => "<grid " ++ g.shape.render ++ ">"
  | .colors cs => renderColors cs
  | .positions ps => s!"<{ps.length} positions>"

end Value

end GridRepair
