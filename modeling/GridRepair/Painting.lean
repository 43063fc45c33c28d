/-
# Painting

Operations that keep the shape of a grid: pasting, recoloring, masks, and filled or outlined
rectangles.  What is painted outside the grid is clipped; only a mask of another shape is
refused.  Coordinates are integers of any sign, and far edges saturate at the ends of their
range before they are clipped.
-/
import GridRepair.Grid
import GridRepair.Limits

namespace GridRepair

namespace Grid

/-! ## Colors and masks -/

/-- One color replaced by another. -/
def recolor (g : Grid) (source target : Color) : Grid :=
  g.map fun x => if x = source then target else x

/-- One where the color is, zero elsewhere. -/
def maskColor (g : Grid) (color : Color) : Grid :=
  g.map fun x => if x = color then 1 else 0

/-- Combine with a grid that must have the same shape. -/
def combine (operation : String) (f : Color → Color → Color) (g m : Grid) : Except Fault Grid :=
  if h : g.shape = m.shape then .ok (zipWith f g m h)
  else .error (.shapeMismatch operation g.shape m.shape)

/-- The color wherever the mask is not zero. -/
def fillMask (g mask : Grid) (color : Color) : Except Fault Grid :=
  combine "fill_mask" (fun x m => if m ≠ 0 then color else x) g mask

/-- The source wherever it is not zero. -/
def overlay (g source : Grid) : Except Fault Grid :=
  combine "overlay" (fun x s => if s ≠ 0 then s else x) g source

/-- The background color wherever the mask is zero. -/
def applyMask (g mask : Grid) (bg : Color) : Except Fault Grid :=
  combine "apply_mask" (fun x m => if m ≠ 0 then x else bg) g mask

/-! ## Pasting -/

/-- The color at integer coordinates, if they are inside. -/
def lookup? (g : Grid) (row col : Int) : Option Color :=
  if 0 ≤ row ∧ 0 ≤ col then g.get? row.toNat col.toNat else none

/-- The source laid over the target with its top left cell at the given place.  Source cells
of the background color are transparent. -/
def paste (target source : Grid) (row col : Int) (bg : Color) : Grid :=
  target.mapIdx fun r c x =>
    match source.lookup? (r - row) (c - col) with
    | some s => if s = bg then x else s
    | none => x

/-! ## Rectangles -/

/-- A half-open range of positions. -/
structure Span where
  first : Nat
  stop : Nat
deriving DecidableEq, Repr

/-- The position is in the range. -/
def Span.has (s : Span) (i : Nat) : Bool := s.first ≤ i && i < s.stop

/-- A length as an integer, at most `maxInt`. -/
def reach (length : Nat) : Int := min length maxInt

/-- The nearest position in `0, …, limit`. -/
def clamp (x : Int) (limit : Nat) : Nat := (max 0 (min x limit)).toNat

/-- The positions of a side below `limit` that a stretch of so many cells covers. -/
def clip (start : Int) (length limit : Nat) : Span :=
  ⟨clamp start limit, clamp (saturate (start + reach length)) limit⟩

/-- A filled rectangle with the given top left cell. -/
def drawRect (g : Grid) (row col : Int) (height width : Nat) (color : Color) : Grid :=
  let rows := clip row height g.height
  let cols := clip col width g.width
  g.mapIdx fun r c x => if rows.has r && cols.has c then color else x

/-- A horizontal stroke to the right. -/
def drawLineH (g : Grid) (row col : Int) (length : Nat) (color : Color) : Grid :=
  g.drawRect row col 1 length color

/-- A vertical stroke downwards. -/
def drawLineV (g : Grid) (row col : Int) (length : Nat) (color : Color) : Grid :=
  g.drawRect row col length 1 color

/-- The last line of a stretch of so many cells. -/
def lastLine (start : Int) (length : Nat) : Int := saturate (start + (reach length - 1))

/-- The border of a rectangle, one cell thick.  Edges outside the grid are not drawn. -/
def drawRectOutline (g : Grid) (row col : Int) (height width : Nat) (color : Color) : Grid :=
  let rows := clip row height g.height
  let cols := clip col width g.width
  let bottom := lastLine row height
  let right := lastLine col width
  g.mapIdx fun r c x =>
    if rows.has r && cols.has c &&
        decide ((r : Int) = row ∨ (r : Int) = bottom ∨ (c : Int) = col ∨ (c : Int) = right) then
      color
    else x

end Grid

end GridRepair
