/-
# Shapes, cells and boxes

The coordinates of the library: a `Shape` is a height and a width, a `Cell` a row and a
column counted from the top left corner, and a `Box` a rectangle of cells.  A box is plain
data; one with a zero side covers no cell.

* `mem_neighbors` : the side neighbors of a cell, in coordinates;
* `Box.around` : the smallest box that covers a cell and a list of cells.
-/

namespace GridRepair

/-! ## Shapes and cells -/

/-- Height and width, in cells. -/
structure Shape where
  height : Nat
  width : Nat
deriving DecidableEq, Repr

/-- The number of cells of a shape. -/
def Shape.area (s : Shape) : Nat := s.height * s.width

/-- A shape in words: height, then width. -/
def Shape.render (s : Shape) : String := s!"{s.height}x{s.width}"

/-- A row and a column. -/
structure Cell where
  row : Nat
  col : Nat
deriving DecidableEq, Repr

/-- The cell lies inside the shape. -/
def Shape.Contains (s : Shape) (p : Cell) : Prop := p.row < s.height ∧ p.col < s.width

instance (s : Shape) (p : Cell) : Decidable (s.Contains p) :=
  inferInstanceAs (Decidable (_ ∧ _))

/-- The cells of a shape, row by row from the top, each row from the left. -/
def Shape.cells (s : Shape) : List Cell :=
  (List.range s.height).flatMap fun r => (List.range s.width).map fun c => ⟨r, c⟩

/-- The enumeration holds exactly the cells inside the shape. -/
@[simp] theorem Shape.mem_cells {s : Shape} {p : Cell} : p ∈ s.cells ↔ s.Contains p := by
  obtain ⟨r, c⟩ := p
  simp [Shape.cells, Shape.Contains]

/-- The side neighbors of a cell inside a shape: above, below, left and right. -/
def Shape.neighbors (s : Shape) (p : Cell) : List Cell :=
  (if 0 < p.row then [⟨p.row - 1, p.col⟩] else []) ++
  (if p.row + 1 < s.height then [⟨p.row + 1, p.col⟩] else []) ++
  (if 0 < p.col then [⟨p.row, p.col - 1⟩] else []) ++
  (if p.col + 1 < s.width then [⟨p.row, p.col + 1⟩] else [])

/-- Two cells share a side. -/
def Cell.Adjacent (p q : Cell) : Prop :=
  (p.col = q.col ∧ (p.row = q.row + 1 ∨ q.row = p.row + 1)) ∨
  (p.row = q.row ∧ (p.col = q.col + 1 ∨ q.col = p.col + 1))

/-- Sharing a side is symmetric. -/
theorem Cell.Adjacent.symm {p q : Cell} (h : p.Adjacent q) : q.Adjacent p := by
  simp only [Cell.Adjacent] at *
  omega

/-- Around a cell of the shape, the neighbors are the adjacent cells of the shape. -/
theorem Shape.mem_neighbors {s : Shape} {p q : Cell} (hp : s.Contains p) :
    q ∈ s.neighbors p ↔ s.Contains q ∧ p.Adjacent q := by
  obtain ⟨r, c⟩ := p
  obtain ⟨r', c'⟩ := q
  simp only [Shape.Contains, Shape.neighbors, Cell.Adjacent, List.mem_append,
    List.mem_ite_nil_right, List.mem_singleton, Cell.mk.injEq] at *
  omega

/-! ## Boxes -/

/-- A rectangle of cells: its top left cell, its height and its width. -/
structure Box where
  row : Nat
  col : Nat
  height : Nat
  width : Nat
deriving DecidableEq, Repr

namespace Box

/-- Height and width of the box. -/
def shape (b : Box) : Shape := ⟨b.height, b.width⟩

/-- The number of cells of the box. -/
def area (b : Box) : Nat := b.height * b.width

/-- The cell lies in the box. -/
def contains (b : Box) (p : Cell) : Bool :=
  b.row ≤ p.row && p.row < b.row + b.height && b.col ≤ p.col && p.col < b.col + b.width

/-- The box lies inside a grid of the given shape. -/
def fits (b : Box) (s : Shape) : Bool :=
  b.row + b.height ≤ s.height && b.col + b.width ≤ s.width

/-- The box with the given top, left, bottom and right lines, all of them included. -/
def spanning (top left bottom right : Nat) : Box :=
  ⟨top, left, bottom - top + 1, right - left + 1⟩

/-- The smallest box that covers a cell and a list of cells. -/
def around (p : Cell) (ps : List Cell) : Box :=
  spanning ((ps.map Cell.row).foldl min p.row) ((ps.map Cell.col).foldl min p.col)
    ((ps.map Cell.row).foldl max p.row) ((ps.map Cell.col).foldl max p.col)

/-- The smallest box that covers a list of cells, if there is a cell to cover. -/
def hull : List Cell → Option Box
  | [] => none
  | p :: ps => some (around p ps)

/-- Membership in a box, in coordinates. -/
theorem contains_iff {b : Box} {p : Cell} :
    b.contains p = true ↔
      (b.row ≤ p.row ∧ p.row < b.row + b.height) ∧ b.col ≤ p.col ∧ p.col < b.col + b.width := by
  simp [contains, and_assoc]

/-- A box fits when its far lines do. -/
theorem fits_iff {b : Box} {s : Shape} :
    b.fits s = true ↔ b.row + b.height ≤ s.height ∧ b.col + b.width ≤ s.width := by
  simp [fits]

end Box

end GridRepair
