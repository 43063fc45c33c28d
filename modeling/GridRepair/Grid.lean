/-
# Grids

A grid is a rectangle of colors, stored row by row.  Its view is `Grid.get?`, the color at a
row and a column: grids of one shape with the same view are equal (`Grid.ext_get?`), and every
operation is described by what it does to the view (`get?_ofFn`, `get?_mapIdx`, …).

Reading a cell with `Grid.colorAt` takes the proof that the cell is inside, so no operation
can read outside a grid.  A grid is `Valid` when it has a cell and all its colors are at most
`maxColor`; rows become a grid only if they pass both tests (`Grid.ofRows`).
-/
import GridRepair.Palette
import GridRepair.Fault

namespace GridRepair

/-- A rectangle of colors. -/
structure Grid where
  height : Nat
  width : Nat
  /-- the colors, row by row -/
  cells : Array Color
  size_cells : cells.size = height * width
deriving DecidableEq

namespace Grid

/-- Height and width. -/
def shape (g : Grid) : Shape := ⟨g.height, g.width⟩

/-- The number of cells. -/
def area (g : Grid) : Nat := g.cells.size

/-- The grid has a cell, and every cell holds a color. -/
def Valid (g : Grid) : Prop :=
  0 < g.height ∧ 0 < g.width ∧ ∀ c ∈ g.cells, c ≤ maxColor

instance (g : Grid) : Decidable g.Valid :=
  inferInstanceAs (Decidable (_ ∧ _ ∧ _))

/-! ## Row-major positions -/

/-- The position of an inner cell is inside the store. -/
theorem index_lt {h w r c : Nat} (hr : r < h) (hc : c < w) : r * w + c < h * w :=
  calc r * w + c < r * w + w := Nat.add_lt_add_left hc _
    _ = (r + 1) * w := (Nat.succ_mul r w).symm
    _ ≤ h * w := Nat.mul_le_mul_right w hr

/-- The row of a position inside the store. -/
theorem row_lt {h w i : Nat} (hi : i < h * w) : i / w < h :=
  Nat.div_lt_of_lt_mul (Nat.mul_comm h w ▸ hi)

/-- The column of a position inside the store. -/
theorem col_lt {h w i : Nat} (hi : i < h * w) : i % w < w := by
  refine Nat.mod_lt _ (Nat.pos_of_ne_zero ?_)
  rintro rfl
  simp at hi

/-- The row of the position of a cell. -/
theorem index_div {w r c : Nat} (hc : c < w) : (r * w + c) / w = r := by
  rw [Nat.mul_comm, Nat.mul_add_div (by omega), Nat.div_eq_of_lt hc, Nat.add_zero]

/-- The column of the position of a cell. -/
theorem index_mod {w r c : Nat} (hc : c < w) : (r * w + c) % w = c := by
  rw [Nat.mul_comm, Nat.mul_add_mod, Nat.mod_eq_of_lt hc]

/-- Cells of a width are told apart by their positions. -/
theorem index_inj {w r c r' c' : Nat} (hc : c < w) (hc' : c' < w)
    (h : r * w + c = r' * w + c') : r = r' ∧ c = c' := by
  have hrow := congrArg (· / w) h
  have hcol := congrArg (· % w) h
  simp only [index_div hc, index_div hc', index_mod hc, index_mod hc'] at hrow hcol
  exact ⟨hrow, hcol⟩

/-! ## Reading and building -/

/-- The color of a cell inside the grid. -/
def colorAt (g : Grid) (r c : Nat) (hr : r < g.height) (hc : c < g.width) : Color :=
  have inside : r * g.width + c < g.cells.size := g.size_cells ▸ index_lt hr hc
  g.cells[r * g.width + c]

/-- The color at a row and a column, if the cell is inside the grid. -/
def get? (g : Grid) (r c : Nat) : Option Color :=
  if h : r < g.height ∧ c < g.width then some (g.colorAt r c h.1 h.2) else none

/-- The grid whose cells are given by a function of row and column. -/
def ofFn (height width : Nat) (f : (r c : Nat) → r < height → c < width → Color) : Grid where
  height := height
  width := width
  cells := Array.ofFn fun i : Fin (height * width) =>
    f (i / width) (i % width) (row_lt i.isLt) (col_lt i.isLt)
  size_cells := Array.size_ofFn

@[simp] theorem height_ofFn {h w : Nat} (f : (r c : Nat) → r < h → c < w → Color) :
    (ofFn h w f).height = h := rfl

@[simp] theorem width_ofFn {h w : Nat} (f : (r c : Nat) → r < h → c < w → Color) :
    (ofFn h w f).width = w := rfl

/-- The view of a built grid is the function it was built from. -/
@[simp] theorem colorAt_ofFn {h w r c : Nat} (f : (r c : Nat) → r < h → c < w → Color)
    (hr : r < h) (hc : c < w) : (ofFn h w f).colorAt r c hr hc = f r c hr hc := by
  simp only [colorAt, ofFn, Array.getElem_ofFn, index_div hc, index_mod hc]

/-- Inside, the view is the color of the cell. -/
theorem get?_eq_some {g : Grid} {r c : Nat} (hr : r < g.height) (hc : c < g.width) :
    g.get? r c = some (g.colorAt r c hr hc) := dif_pos ⟨hr, hc⟩

/-- The view is defined inside and nowhere else. -/
theorem get?_eq_none {g : Grid} {r c : Nat} : g.get? r c = none ↔ ¬ g.shape.Contains ⟨r, c⟩ := by
  simp [get?, Shape.Contains, shape]

/-- A cell with a color is inside the grid. -/
theorem contains_of_get? {g : Grid} {p : Cell} {color : Color}
    (h : g.get? p.row p.col = some color) : g.shape.Contains p := by
  by_cases hin : g.shape.Contains p
  · exact hin
  · rw [get?_eq_none.2 hin] at h
    cases h

/-- The view of a built grid, inside or outside. -/
theorem get?_ofFn {h w r c : Nat} (f : (r c : Nat) → r < h → c < w → Color) :
    (ofFn h w f).get? r c = if h : r < h ∧ c < w then some (f r c h.1 h.2) else none := by
  by_cases hin : r < h ∧ c < w
  · rw [dif_pos hin, get?_eq_some (g := ofFn h w f) hin.1 hin.2, colorAt_ofFn]
  · rw [dif_neg hin]
    exact dif_neg hin

/-- Grids of one shape with the same colors are equal. -/
theorem ext_colorAt {g g' : Grid} (hh : g.height = g'.height) (hw : g.width = g'.width)
    (h : ∀ r c (hr : r < g.height) (hc : c < g.width),
      g.colorAt r c hr hc = g'.colorAt r c (hh ▸ hr) (hw ▸ hc)) : g = g' := by
  obtain ⟨ht, wd, xs, hx⟩ := g
  obtain ⟨ht', wd', ys, hy⟩ := g'
  simp only at hh hw
  subst hh hw
  congr
  apply Array.ext (hx.trans hy.symm)
  intro i hi hi'
  have := h (i / wd) (i % wd) (row_lt (hx ▸ hi)) (col_lt (hx ▸ hi))
  simpa only [colorAt, Nat.mul_comm _ wd, Nat.div_add_mod] using this

/-- Grids of one shape with the same view inside are equal. -/
theorem ext_inside {g g' : Grid} (hs : g.shape = g'.shape)
    (h : ∀ r c, r < g.height → c < g.width → g.get? r c = g'.get? r c) : g = g' := by
  simp only [shape, Shape.mk.injEq] at hs
  refine ext_colorAt hs.1 hs.2 fun r c hr hc => ?_
  have := h r c hr hc
  rwa [get?_eq_some hr hc, get?_eq_some (hs.1 ▸ hr) (hs.2 ▸ hc), Option.some.injEq] at this

/-- Grids of one shape with the same view are equal. -/
theorem ext_get? {g g' : Grid} (hs : g.shape = g'.shape)
    (h : ∀ r c, g.get? r c = g'.get? r c) : g = g' :=
  ext_inside hs fun r c _ _ => h r c

/-- The grid of one color. -/
def full (height width : Nat) (color : Color) : Grid := ofFn height width fun _ _ _ _ => color

/-- Replace every cell by a function of its row, its column and its color. -/
def mapIdx (g : Grid) (f : Nat → Nat → Color → Color) : Grid :=
  ofFn g.height g.width fun r c hr hc => f r c (g.colorAt r c hr hc)

/-- Replace every cell by a function of its color. -/
def map (g : Grid) (f : Color → Color) : Grid where
  height := g.height
  width := g.width
  cells := g.cells.map f
  size_cells := by rw [Array.size_map, g.size_cells]

/-- Grids of one shape have one height. -/
theorem height_eq {g m : Grid} (h : g.shape = m.shape) : g.height = m.height :=
  congrArg Shape.height h

/-- Grids of one shape have one width. -/
theorem width_eq {g m : Grid} (h : g.shape = m.shape) : g.width = m.width :=
  congrArg Shape.width h

/-- Combine two grids of one shape, cell by cell. -/
def zipWith (f : Color → Color → Color) (g m : Grid) (h : g.shape = m.shape) : Grid :=
  ofFn g.height g.width fun r c hr hc =>
    f (g.colorAt r c hr hc) (m.colorAt r c (height_eq h ▸ hr) (width_eq h ▸ hc))

/-- The view of a replacement by position. -/
theorem get?_mapIdx (g : Grid) (f : Nat → Nat → Color → Color) (r c : Nat) :
    (g.mapIdx f).get? r c = (g.get? r c).map (f r c) := by
  rw [mapIdx, get?_ofFn]
  simp only [get?]
  split <;> rfl

/-- The view of a replacement by color. -/
theorem get?_map (g : Grid) (f : Color → Color) (r c : Nat) :
    (g.map f).get? r c = (g.get? r c).map f := by
  simp only [get?, colorAt, map, Array.getElem_map]
  split <;> rfl

/-- The view of a combination. -/
theorem get?_zipWith (f : Color → Color → Color) (g m : Grid) (h : g.shape = m.shape)
    (r c : Nat) : (zipWith f g m h).get? r c =
      (g.get? r c).bind fun x => (m.get? r c).map fun y => f x y := by
  rw [zipWith, get?_ofFn]
  simp only [get?, height_eq h, width_eq h]
  split <;> rfl

/-! ## Aggregates -/

/-- The colors that occur. -/
def palette (g : Grid) : Palette := g.cells.foldl (fun s c => s.insert c) Palette.empty

/-- The number of cells of one color. -/
def count (g : Grid) (color : Color) : Nat := g.cells.count color

/-- The color occurs. -/
def has (g : Grid) (color : Color) : Bool := g.cells.contains color

/-- The cells of one color, row by row. -/
def positions (g : Grid) (color : Color) : List Cell :=
  g.shape.cells.filter fun p => g.get? p.row p.col == some color

/-- The rows, from the top. -/
def rows (g : Grid) : List (List Color) :=
  List.ofFn fun r : Fin g.height =>
    List.ofFn fun c : Fin g.width => g.colorAt r c r.isLt c.isLt

/-- The rows as text, one digit a cell. -/
def render (g : Grid) : String :=
  "\n".intercalate (g.rows.map fun row => String.join (row.map toString))

/-- The palette holds the colors of the cells. -/
theorem mem_palette {g : Grid} {color : Color} : color ∈ g.palette ↔ color ∈ g.cells := by
  rw [palette, ← Array.foldl_toList, Palette.mem_foldl_insert]
  simp

/-! ## Checked construction -/

/-- An integer as a color. -/
def color? (value : Int) : Except Fault Color :=
  if 0 ≤ value ∧ value ≤ maxColor then .ok value.toNat else .error (.invalidColor value)

/-- A color is the color of its number. -/
theorem color?_of_le {c : Color} (h : c ≤ maxColor) : color? c = .ok c :=
  if_pos ⟨Int.natCast_nonneg c, Int.ofNat_le.2 h⟩

/-- Refuse sides that leave no cell. -/
def checkSides (shape : Shape) : Except Fault Unit :=
  if shape.height = 0 ∨ shape.width = 0 then .error (.invalidGrid (.empty shape)) else .ok ()

/-- A grid of one color, checked. -/
def filled (height width : Nat) (color : Color) : Except Fault Grid := do
  checkSides ⟨height, width⟩
  let color ← color? color
  pure (full height width color)

/-- What is wrong with one row: its length first, then its first cell beyond the colors. -/
def rowFault? (width index : Nat) (row : List Color) : Option Fault :=
  if row.length ≠ width then some (.invalidGrid (.ragged index row.length width))
  else (row.find? fun c => decide (maxColor < c)).map fun c => .invalidColor c

/-- The first thing wrong with rows counted from `index`. -/
def rowsFault? (width : Nat) : Nat → List (List Color) → Option Fault
  | _, [] => none
  | index, row :: rows => (rowFault? width index row).or (rowsFault? width (index + 1) rows)

/-- Rows without fault fill their rectangle. -/
theorem length_flatten_of_rowsFault? {width index : Nat} {rows : List (List Color)}
    (h : rowsFault? width index rows = none) : rows.flatten.length = rows.length * width := by
  induction rows generalizing index with
  | nil => simp
  | cons row rows ih =>
    simp only [rowsFault?, Option.or_eq_none_iff] at h
    have hw : row.length = width := by
      have h₁ := h.1
      simp only [rowFault?] at h₁
      by_cases hl : row.length = width
      · exact hl
      · rw [if_pos hl] at h₁
        cases h₁
    rw [List.flatten_cons, List.length_append, ih h.2, hw, List.length_cons, Nat.succ_mul,
      Nat.add_comm]

/-- The grid with the given rows: there must be a cell, all rows must be as long as the first
one, and every color must be at most `maxColor`. -/
def ofRows (rows : List (List Color)) : Except Fault Grid := do
  let width := (rows.head?.map List.length).getD 0
  checkSides ⟨rows.length, width⟩
  match h : rowsFault? width 0 rows with
  | some fault => .error fault
  | none =>
    .ok ⟨rows.length, width, rows.flatten.toArray, length_flatten_of_rowsFault? h⟩

/-- A copy of the grid with one cell replaced. -/
def set (g : Grid) (p : Cell) (color : Color) : Except Fault Grid := do
  let color ← color? color
  if g.shape.Contains p then
    pure (g.mapIdx fun r c x => if r = p.row ∧ c = p.col then color else x)
  else .error (.invalidArgument "with_element" (.outside p g.shape))

/-- A grid that has a cell and holds only colors; anything else is no result. -/
def checked (g : Grid) : Except Fault Grid :=
  if g.Valid then .ok g else .error (.breach .grid)

/-- The smallest grid of one color. -/
def dot (color : Color) : Grid := full 1 1 color

end Grid

end GridRepair
