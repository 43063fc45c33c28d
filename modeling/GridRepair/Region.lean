/-
# Regions

A region is a maximal set of cells of one color that are connected through shared sides.
Two searches find regions, each with a queue of cells still to be visited.  `spread` marks a
cell when it enters the queue, so that no cell is visited twice; `repaint` has no marks but
paints the cells that enter over, and so does not see them again.  A visit takes one unit of
fuel, and no search can need more than the grid has cells.

Filling repaints the region of a cell; the objects of a grid are the regions that are not of
the background color, in the order of their first cells.
-/
import GridRepair.Crop

namespace GridRepair

/-! ## Marked cells -/

/-- A set of cells of a shape, as one flag per cell. -/
structure Marks where
  shape : Shape
  flags : Array Bool
  size_flags : flags.size = shape.area

namespace Marks

/-- No cell is marked. -/
def none (shape : Shape) : Marks := ⟨shape, Array.replicate shape.area false, by simp⟩

/-- The cell is marked. -/
def has (m : Marks) (p : Cell) : Bool :=
  decide (m.shape.Contains p) && m.flags[p.row * m.shape.width + p.col]?.getD false

/-- Mark a cell of the shape; other cells have no flag. -/
def add (m : Marks) (p : Cell) : Marks :=
  if m.shape.Contains p then
    ⟨m.shape, m.flags.setIfInBounds (p.row * m.shape.width + p.col) true,
      by rw [Array.size_setIfInBounds, m.size_flags]⟩
  else m

/-- Mark the cells of a list. -/
def addAll (m : Marks) (ps : List Cell) : Marks := ps.foldl add m

/-- Marking keeps the shape. -/
@[simp] theorem shape_add (m : Marks) (p : Cell) : (m.add p).shape = m.shape := by
  simp only [add]
  split <;> rfl

/-- Nothing is marked at first. -/
@[simp] theorem has_none (shape : Shape) (p : Cell) : (none shape).has p = false := by
  simp only [has, none, Array.getElem?_replicate]
  split <;> simp

/-- A cell of the shape is marked after marking another one when it was marked before or is
that other cell. -/
theorem has_add {m : Marks} {p q : Cell} (hp : m.shape.Contains p) :
    (m.add p).has q = (decide (q = p) || m.has q) := by
  obtain ⟨r, c⟩ := p
  obtain ⟨r', c'⟩ := q
  simp only [add, if_pos hp, has, Cell.mk.injEq]
  by_cases hq : m.shape.Contains ⟨r', c'⟩
  · simp only [hq, decide_true, Bool.true_and]
    by_cases same : r' = r ∧ c' = c
    · obtain ⟨rfl, rfl⟩ := same
      have inside : r' * m.shape.width + c' < m.flags.size :=
        m.size_flags ▸ Grid.index_lt hp.1 hp.2
      simp [inside]
    · have apart : r * m.shape.width + c ≠ r' * m.shape.width + c' := fun e =>
        same ⟨(Grid.index_inj hp.2 hq.2 e).1.symm, (Grid.index_inj hp.2 hq.2 e).2.symm⟩
      simp [same, Array.getElem?_setIfInBounds_ne apart]
  · have other : ¬ (r' = r ∧ c' = c) := by
      rintro ⟨rfl, rfl⟩
      exact hq hp
    simp [hq, other]

end Marks

namespace Grid

/-! ## The search -/

/-- The cells that enter the search from a visited cell: unmarked neighbors of the color. -/
def entering (g : Grid) (color : Color) (seen : Marks) (p : Cell) : List Cell :=
  (g.shape.neighbors p).filter fun q => g.get? q.row q.col == some color && !seen.has q

/-- Visit the queued cells, and from each queue its unmarked neighbors of the color.  The
result holds the visited cells and all marks. -/
def spread (g : Grid) (color : Color) : Nat → List Cell → Marks → List Cell → List Cell × Marks
  | 0, _, seen, region => (region, seen)
  | _, [], seen, region => (region, seen)
  | fuel + 1, p :: todo, seen, region =>
    let next := g.entering color seen p
    g.spread color fuel (todo ++ next) (seen.addAll next) (p :: region)

/-- The region of a cell of the given color among the unmarked cells, and all marks after the
search. -/
def region (g : Grid) (color : Color) (start : Cell) (seen : Marks) : List Cell × Marks :=
  g.spread color g.shape.area [start] (seen.add start) []

/-! ## Filling -/

/-- The cell with the given integer coordinates, if it is inside. -/
def cell? (g : Grid) (row col : Int) : Option Cell :=
  if 0 ≤ row ∧ 0 ≤ col ∧ row < g.height ∧ col < g.width then some ⟨row.toNat, col.toNat⟩
  else none

/-- Overwrite one cell of the store.  Outside there is nothing to overwrite. -/
def put (g : Grid) (p : Cell) (color : Color) : Grid :=
  if g.shape.Contains p then
    ⟨g.height, g.width, g.cells.setIfInBounds (p.row * g.width + p.col) color,
      by rw [Array.size_setIfInBounds, g.size_cells]⟩
  else g

/-- Overwriting keeps the shape. -/
@[simp] theorem shape_put (g : Grid) (p : Cell) (color : Color) :
    (g.put p color).shape = g.shape := by
  unfold put
  split <;> rfl

/-- An overwritten cell of the grid has the new color, and all others keep theirs. -/
theorem get?_put {g : Grid} {p : Cell} (hp : g.shape.Contains p) (color : Color) (q : Cell) :
    (g.put p color).get? q.row q.col = if q = p then some color else g.get? q.row q.col := by
  obtain ⟨r, c⟩ := p
  obtain ⟨r', c'⟩ := q
  have inside : r * g.width + c < g.cells.size := g.size_cells ▸ index_lt hp.1 hp.2
  simp only [put, if_pos hp, get?, colorAt, Cell.mk.injEq]
  by_cases same : r' = r ∧ c' = c
  · obtain ⟨rfl, rfl⟩ := same
    simp [show r' < g.height ∧ c' < g.width from hp]
  · by_cases hq : r' < g.height ∧ c' < g.width
    · have apart : r * g.width + c ≠ r' * g.width + c' := fun e =>
        same ⟨(index_inj hp.2 hq.2 e).1.symm, (index_inj hp.2 hq.2 e).2.symm⟩
      have outer : r' * g.width + c' < g.cells.size := g.size_cells ▸ index_lt hq.1 hq.2
      simp [same, hq, Array.getElem_setIfInBounds_ne outer apart]
    · simp [same, hq]

/-- Overwrite the cells of a list. -/
def putAll (g : Grid) (ps : List Cell) (color : Color) : Grid :=
  ps.foldl (fun out p => out.put p color) g

/-- The cells that enter a fill from a visited cell: the neighbors that still have the old
color. -/
def unpainted (out : Grid) (old : Color) (p : Cell) : List Cell :=
  (out.shape.neighbors p).filter fun q => out.get? q.row q.col == some old

/-- Visit the queued cells, and from each paint over and queue its neighbors of the old
color. -/
def repaint (old color : Color) : Nat → List Cell → Grid → Grid
  | 0, _, out => out
  | _, [], out => out
  | fuel + 1, p :: todo, out =>
    let next := out.unpainted old p
    repaint old color fuel (todo ++ next) (out.putAll next color)

/-- Give the region of a cell another color.  Nothing changes when the cell is outside or has
that color already. -/
def floodFill (g : Grid) (row col : Int) (color : Color) : Grid :=
  match g.cell? row col with
  | none => g
  | some start =>
    match g.get? start.row start.col with
    | none => g
    | some old =>
      if old = color then g else repaint old color g.shape.area [start] (g.put start color)

/-! ## Objects -/

end Grid

/-- A region that is not background: its color, the smallest box around it and its number of
cells. -/
structure Object where
  color : Color
  box : Box
  size : Nat
deriving DecidableEq, Repr

namespace Grid

/-- The objects whose first cell is in the list and not yet marked. -/
def sweep (g : Grid) (bg : Color) : List Cell → Marks → List Object
  | [], _ => []
  | p :: ps, seen =>
    match g.get? p.row p.col with
    | none => g.sweep bg ps seen
    | some color =>
      if color = bg ∨ seen.has p = true then g.sweep bg ps seen
      else
        let found := g.region color p seen
        ⟨color, Box.around p found.1, found.1.length⟩ :: g.sweep bg ps found.2

/-- The objects of a grid, in the order of their first cells, row by row. -/
def objects (g : Grid) (bg : Color) : List Object :=
  g.sweep bg g.shape.cells (Marks.none g.shape)

/-- The first object of the largest size. -/
def largest? : List Object → Option Object
  | [] => none
  | o :: os => some (os.foldl (fun best o => if best.size < o.size then o else best) o)

/-- The grid cut down to its largest object. -/
def cropLargestObject (g : Grid) (bg : Color) : Grid :=
  g.windowOr bg ((largest? (g.objects bg)).map Object.box)

end Grid

end GridRepair
