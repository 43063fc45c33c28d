/-
# Scaling and tiling

Grids built from copies of a grid: every cell as a block, or the whole grid side by side.
The sides of a result are at most `maxSide`; sides that are not even counts are refused
before that bound is looked at.
-/
import GridRepair.Grid
import GridRepair.Limits

namespace GridRepair

/-- The largest side of a scaled or tiled grid. -/
def maxSide : Nat := 256

namespace Grid

/-- Refuse a count of zero. -/
def checkPositive (primitive parameter : String) (count : Nat) : Except Fault Unit :=
  if count = 0 then .error (.invalidArgument primitive (.zero parameter)) else .ok ()

/-- Refuse a shape with a side beyond `maxSide`. -/
def checkOutput (primitive : String) (shape : Shape) : Except Fault Unit :=
  if maxSide < shape.height ∨ maxSide < shape.width then
    .error (.invalidArgument primitive (.tooLarge shape maxSide))
  else .ok ()

/-- The shape of so many copies below and beside each other, if its sides are counts. -/
def copiesShape (primitive : String) (g : Grid) (rows cols : Nat) : Except Fault Shape :=
  if g.height * rows ≤ maxCount ∧ g.width * cols ≤ maxCount then
    .ok ⟨g.height * rows, g.width * cols⟩
  else .error (.invalidArgument primitive (.overflow rows cols))

/-- Every cell as a square block of `factor * factor` cells. -/
def blowUp (g : Grid) (factor : Nat) : Grid :=
  ofFn (g.height * factor) (g.width * factor) fun r c hr hc =>
    g.colorAt (r / factor) (c / factor)
      (Nat.div_lt_of_lt_mul (Nat.mul_comm g.height factor ▸ hr))
      (Nat.div_lt_of_lt_mul (Nat.mul_comm g.width factor ▸ hc))

/-- The grid continued periodically, cut to a shape. -/
def wrap (g : Grid) (shape : Shape) : Grid :=
  ofFn shape.height shape.width fun r c _ _ =>
    (g.get? (r % g.height) (c % g.width)).getD background

/-- Scale by a factor: every cell becomes a square block. -/
def scale (g : Grid) (factor : Nat) : Except Fault Grid := do
  checkPositive "scale" "factor" factor
  let shape ← copiesShape "scale" g factor factor
  checkOutput "scale" shape
  pure (g.blowUp factor)

/-- Tile a shape of the given sides, cutting the last copies. -/
def tileToSize (g : Grid) (height width : Nat) : Except Fault Grid := do
  checkPositive "tile_to_size" "height" height
  checkPositive "tile_to_size" "width" width
  checkOutput "tile_to_size" ⟨height, width⟩
  pure (g.wrap ⟨height, width⟩)

/-- So many copies below each other and so many beside each other. -/
def tileRepeat (g : Grid) (rows cols : Nat) : Except Fault Grid := do
  checkPositive "tile_repeat" "rows" rows
  checkPositive "tile_repeat" "cols" cols
  let shape ← copiesShape "tile_repeat" g rows cols
  tileToSize g shape.height shape.width

/-- Copies side by side. -/
def tileH (g : Grid) (count : Nat) : Except Fault Grid := do
  checkPositive "tile_h" "count" count
  tileRepeat g 1 count

/-- Copies below each other. -/
def tileV (g : Grid) (count : Nat) : Except Fault Grid := do
  checkPositive "tile_v" "count" count
  tileRepeat g count 1

end Grid

end GridRepair
