/-
# Cropping

The part of a grid under a box, and the tightest box around the cells that differ from a
background color.
-/
import GridRepair.Grid

namespace GridRepair

/-- The box with the given top left cell and sides; a box without cells is refused. -/
def Box.ofSides (row col height width : Nat) : Except Fault Box := do
  Grid.checkSides ⟨height, width⟩
  pure ⟨row, col, height, width⟩

namespace Grid

/-- The part of the grid under a box that lies inside it. -/
def window (g : Grid) (b : Box) (h : b.fits g.shape = true) : Grid :=
  ofFn b.height b.width fun r c hr hc =>
    g.colorAt (b.row + r) (b.col + c)
      (Nat.lt_of_lt_of_le (Nat.add_lt_add_left hr _) (Box.fits_iff.1 h).1)
      (Nat.lt_of_lt_of_le (Nat.add_lt_add_left hc _) (Box.fits_iff.1 h).2)

/-- The part of the grid under a box, if the box lies inside the grid. -/
def window? (g : Grid) (b : Box) : Option Grid :=
  if h : b.fits g.shape = true then some (g.window b h) else none

/-- The part of the grid under a box: a box that leaves the grid is refused, and a box
without cells gives no grid. -/
def crop (g : Grid) (b : Box) : Except Fault Grid :=
  match g.window? b with
  | some part => part.checked
  | none => .error (.invalidArgument "crop" (.boxOutside b g.shape))

/-- The cells that differ from the background, row by row. -/
def content (g : Grid) (bg : Color) : List Cell :=
  g.shape.cells.filter fun p => g.get? p.row p.col != some bg

/-- The tightest box around the content, if there is any. -/
def contentBox? (g : Grid) (bg : Color) : Option Box := Box.hull (g.content bg)

/-- The part of the grid under a box; without a box inside the grid, one background cell. -/
def windowOr (g : Grid) (bg : Color) (b : Option Box) : Grid :=
  (b.bind g.window?).getD (dot bg)

/-- The grid cut down to its content. -/
def cropToContent (g : Grid) (bg : Color) : Grid := g.windowOr bg (g.contentBox? bg)

/-! ## Views -/

/-- The view of a window is the view of the grid, moved. -/
theorem get?_window {g : Grid} {b : Box} (h : b.fits g.shape = true) {r c : Nat}
    (hr : r < b.height) (hc : c < b.width) :
    (g.window b h).get? r c = g.get? (b.row + r) (b.col + c) := by
  have hfits := Box.fits_iff.1 h
  rw [window, get?_ofFn, dif_pos ⟨hr, hc⟩]
  exact (get?_eq_some (Nat.lt_of_lt_of_le (Nat.add_lt_add_left hr _) hfits.1)
    (Nat.lt_of_lt_of_le (Nat.add_lt_add_left hc _) hfits.2)).symm

/-- The content is the cells inside whose color is not the background. -/
theorem mem_content {g : Grid} {bg : Color} {p : Cell} :
    p ∈ g.content bg ↔ g.shape.Contains p ∧ g.get? p.row p.col ≠ some bg := by
  simp [content]

end Grid

end GridRepair
