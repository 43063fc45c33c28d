/-
# Symmetries, copies and painting with guarded access

The operations that compute each cell of their result on its own, once more, over the guarded
access of `Guarded`: with plain numbers as coordinates and a guard at every reading and writing.
Symmetries and copies take every cell of a new grid from a cell of the old one; painting keeps the
shape and replaces cells.

The lemma of an operation says that no guard is hit on a sound grid, and that the result is sound
again.
-/
import GridRepair.Proofs.Guarded

namespace GridRepair

namespace Guarded

variable {limit : Nat} {g : Grid} {color : Color}

/-! ## Symmetries -/

/-- Left and right exchanged. -/
def reflectH (g : Grid) : Except Fault Grid :=
  build g.height g.width fun r c => read g r (g.width - 1 - c)

/-- Top and bottom exchanged. -/
def reflectV (g : Grid) : Except Fault Grid :=
  build g.height g.width fun r c => read g (g.height - 1 - r) c

/-- Rows and columns exchanged. -/
def transpose (g : Grid) : Except Fault Grid :=
  build g.width g.height fun r c => read g c r

/-- Clockwise quarter turns. -/
def rotate (g : Grid) (k : Int) : Except Fault Grid :=
  match (k % 4).toNat with
  | 0 => pure g
  | 1 => build g.width g.height fun r c => read g (g.height - 1 - c) r
  | 2 => build g.height g.width fun r c => read g (g.height - 1 - r) (g.width - 1 - c)
  | _ => build g.width g.height fun r c => read g c (g.width - 1 - r)

theorem guards_reflectH (hg : g.Sound limit) :
    Guards (Grid.Sound limit) (reflectH g) (.ok g.reflectH) :=
  guards_build hg.height_mem hg.width_mem fun _ _ hr hc => guards_read hg hr (Grid.flip_lt hc)

theorem guards_reflectV (hg : g.Sound limit) :
    Guards (Grid.Sound limit) (reflectV g) (.ok g.reflectV) :=
  guards_build hg.height_mem hg.width_mem fun _ _ hr hc => guards_read hg (Grid.flip_lt hr) hc

theorem guards_transpose (hg : g.Sound limit) :
    Guards (Grid.Sound limit) (transpose g) (.ok g.transpose) :=
  guards_build hg.width_mem hg.height_mem fun _ _ hr hc => guards_read hg hc hr

theorem guards_rotate (hg : g.Sound limit) (k : Int) :
    Guards (Grid.Sound limit) (rotate g k) (.ok (g.rotate k)) := by
  have hheight := hg.height_mem
  have hwidth := hg.width_mem
  rw [rotate, Grid.rotate]
  rcases (k % 4).toNat with _ | _ | _ | _
  · exact .ok hg
  · exact guards_build hwidth hheight fun _ _ hr hc => guards_read hg (Grid.flip_lt hc) hr
  · exact guards_build hheight hwidth fun _ _ hr hc =>
      guards_read hg (Grid.flip_lt hr) (Grid.flip_lt hc)
  · exact guards_build hwidth hheight fun _ _ hr hc => guards_read hg hc (Grid.flip_lt hr)

/-! ## Copies -/

/-- Every cell as a square block. -/
def scale (g : Grid) (factor : Nat) : Except Fault Grid := do
  Grid.checkPositive "scale" "factor" factor
  let shape ← Grid.copiesShape "scale" g factor factor
  Grid.checkOutput "scale" shape
  build shape.height shape.width fun r c => read g (r / factor) (c / factor)

/-- A shape tiled, with the last copies cut. -/
def tileToSize (g : Grid) (height width : Nat) : Except Fault Grid := do
  Grid.checkPositive "tile_to_size" "height" height
  Grid.checkPositive "tile_to_size" "width" width
  Grid.checkOutput "tile_to_size" ⟨height, width⟩
  build height width fun r c => read g (r % g.height) (c % g.width)

/-- Copies below and beside each other. -/
def tileRepeat (g : Grid) (rows cols : Nat) : Except Fault Grid := do
  Grid.checkPositive "tile_repeat" "rows" rows
  Grid.checkPositive "tile_repeat" "cols" cols
  let shape ← Grid.copiesShape "tile_repeat" g rows cols
  tileToSize g shape.height shape.width

/-- Copies side by side. -/
def tileH (g : Grid) (count : Nat) : Except Fault Grid := do
  Grid.checkPositive "tile_h" "count" count
  tileRepeat g 1 count

/-- Copies below each other. -/
def tileV (g : Grid) (count : Nat) : Except Fault Grid := do
  Grid.checkPositive "tile_v" "count" count
  tileRepeat g count 1

theorem guards_checkPositive (primitive parameter : String) (count : Nat) :
    Guards (fun _ => 0 < count) (Grid.checkPositive primitive parameter count)
      (Grid.checkPositive primitive parameter count) := by
  rw [Grid.checkPositive]
  split
  · exact .error nofun
  · exact .ok (by omega)

theorem guards_checkOutput (primitive : String) (shape : Shape) :
    Guards (fun _ => shape.height ≤ maxSide ∧ shape.width ≤ maxSide)
      (Grid.checkOutput primitive shape) (Grid.checkOutput primitive shape) := by
  rw [Grid.checkOutput]
  split
  · exact .error nofun
  · exact .ok (by omega)

theorem guards_copiesShape (primitive : String) (g : Grid) (rows cols : Nat) :
    Guards (· = ⟨g.height * rows, g.width * cols⟩) (Grid.copiesShape primitive g rows cols)
      (Grid.copiesShape primitive g rows cols) := by
  rw [Grid.copiesShape]
  split
  · exact .ok rfl
  · exact .error nofun

theorem guards_scale (hg : g.Sound limit) (hlimit : maxSide ≤ limit) (factor : Nat) :
    Guards (Grid.Sound limit) (scale g factor) (g.scale factor) := by
  refine (guards_checkPositive _ _ _).bind fun _ hfactor => ?_
  refine (guards_copiesShape _ _ _ _).bind fun shape hshape => ?_
  refine (guards_checkOutput _ _).bind fun _ houtput => ?_
  subst hshape
  refine guards_build ⟨Nat.mul_pos hg.height_pos hfactor, houtput.1.trans hlimit⟩
    ⟨Nat.mul_pos hg.width_pos hfactor, houtput.2.trans hlimit⟩ fun r c hr hc => ?_
  exact guards_read hg (Nat.div_lt_of_lt_mul (Nat.mul_comm g.height factor ▸ hr))
    (Nat.div_lt_of_lt_mul (Nat.mul_comm g.width factor ▸ hc))

theorem guards_tileToSize (hg : g.Sound limit) (hlimit : maxSide ≤ limit) (height width : Nat) :
    Guards (Grid.Sound limit) (tileToSize g height width) (g.tileToSize height width) := by
  refine (guards_checkPositive _ _ _).bind fun _ hheight => ?_
  refine (guards_checkPositive _ _ _).bind fun _ hwidth => ?_
  refine (guards_checkOutput _ _).bind fun _ houtput => ?_
  refine guards_build ⟨hheight, houtput.1.trans hlimit⟩ ⟨hwidth, houtput.2.trans hlimit⟩
    fun r c _ _ => ?_
  have hr : r % g.height < g.height := Nat.mod_lt r hg.height_pos
  have hc : c % g.width < g.width := Nat.mod_lt c hg.width_pos
  rw [Grid.get?_eq_some hr hc]
  exact guards_read hg hr hc

theorem guards_tileRepeat (hg : g.Sound limit) (hlimit : maxSide ≤ limit) (rows cols : Nat) :
    Guards (Grid.Sound limit) (tileRepeat g rows cols) (g.tileRepeat rows cols) :=
  (guards_checkPositive _ _ _).bind fun _ _ => (guards_checkPositive _ _ _).bind fun _ _ =>
    (guards_copiesShape _ _ _ _).bind fun _ _ => guards_tileToSize hg hlimit _ _

theorem guards_tileH (hg : g.Sound limit) (hlimit : maxSide ≤ limit) (count : Nat) :
    Guards (Grid.Sound limit) (tileH g count) (g.tileH count) :=
  (guards_checkPositive _ _ _).bind fun _ _ => guards_tileRepeat hg hlimit _ _

theorem guards_tileV (hg : g.Sound limit) (hlimit : maxSide ≤ limit) (count : Nat) :
    Guards (Grid.Sound limit) (tileV g count) (g.tileV count) :=
  (guards_checkPositive _ _ _).bind fun _ _ => guards_tileRepeat hg hlimit _ _

/-! ## Colors and masks -/

/-- Every color replaced. -/
def map (g : Grid) (f : Color → Color) : Except Fault Grid :=
  rebuild g fun _ _ x => pure (f x)

/-- Two grids of one shape combined. -/
def combine (operation : String) (f : Color → Color → Color) (g m : Grid) : Except Fault Grid :=
  if g.shape = m.shape then
    rebuild g fun r c x => do
      let y ← read m r c
      pure (f x y)
  else .error (.shapeMismatch operation g.shape m.shape)

/-- A replacement by color is one by position. -/
theorem map_eq_mapIdx (g : Grid) (f : Color → Color) : g.map f = g.mapIdx fun _ _ => f :=
  Grid.ext_get? rfl fun r c => by rw [Grid.get?_map, Grid.get?_mapIdx]

theorem guards_map (hg : g.Sound limit) {f : Color → Color}
    (hf : ∀ x, x ≤ maxColor → f x ≤ maxColor) :
    Guards (Grid.Sound limit) (map g f) (.ok (g.map f)) := by
  rw [map_eq_mapIdx]
  exact guards_rebuild hg fun _ _ x _ _ hx => .ok (hf x hx)

theorem guards_combine {m : Grid} (hg : g.Sound limit) (hm : m.Sound limit) (operation : String)
    {f : Color → Color → Color} (hf : ∀ x y, x ≤ maxColor → y ≤ maxColor → f x y ≤ maxColor) :
    Guards (Grid.Sound limit) (combine operation f g m) (Grid.combine operation f g m) := by
  rw [combine, Grid.combine]
  split
  case isFalse => exact .error nofun
  case isTrue hshape =>
    refine guards_build hg.height_mem hg.width_mem fun r c hr hc => ?_
    refine (guards_read hg hr hc).bind_ok fun hx => ?_
    have hread := guards_read hm (Grid.height_eq hshape ▸ hr) (Grid.width_eq hshape ▸ hc)
    exact hread.bind_ok fun hy => .ok (hf _ _ hx hy)

/-! ## Pasting -/

/-- The source laid over the target. -/
def paste (target source : Grid) (row col : Int) (bg : Color) : Except Fault Grid :=
  rebuild target fun r c x =>
    match source.cell? (r - row) (c - col) with
    | some p => do
      let s ← read source p.row p.col
      pure (if s = bg then x else s)
    | none => pure x

/-- A cell with integer coordinates is a cell of the grid. -/
theorem contains_of_cell? {row col : Int} {p : Cell} (h : g.cell? row col = some p) :
    g.shape.Contains p := by
  rw [Grid.cell?] at h
  split at h
  · cases h
    simp only [Shape.Contains, Grid.shape]
    omega
  · cases h

/-- The color at integer coordinates is that of the cell there. -/
theorem lookup?_eq (g : Grid) (row col : Int) :
    g.lookup? row col = (g.cell? row col).bind fun p => g.get? p.row p.col := by
  rw [Grid.lookup?, Grid.cell?]
  split_ifs with hsign hinside hinside
  · rfl
  · refine Grid.get?_eq_none.2 fun hcontains => hinside ?_
    simp only [Shape.Contains, Grid.shape] at hcontains
    omega
  · omega
  · rfl

theorem guards_paste {source : Grid} (hg : g.Sound limit) (hsource : source.Sound limit)
    (row col : Int) (bg : Color) :
    Guards (Grid.Sound limit) (paste g source row col bg) (.ok (g.paste source row col bg)) := by
  refine guards_rebuild hg fun r c x hr hc hx => ?_
  rw [lookup?_eq]
  cases hcell : source.cell? (r - row) (c - col) with
  | none => exact .ok hx
  | some p =>
    have hp := contains_of_cell? hcell
    rw [Option.bind_some, Grid.get?_eq_some hp.1 hp.2]
    refine (guards_read hsource hp.1 hp.2).bind_ok fun hs => ?_
    dsimp only
    split
    · exact .ok hx
    · exact .ok hs

/-! ## Rectangles -/

/-- The positions of a range. -/
def positions (s : Grid.Span) : List Nat := List.range' s.first (s.stop - s.first)

/-- The cells whose row and column are in given ranges. -/
def block (rows cols : Grid.Span) : List Cell :=
  (positions rows).flatMap fun r => (positions cols).map fun c => ⟨r, c⟩

/-- A filled rectangle. -/
def drawRect (g : Grid) (row col : Int) (height width : Nat) (color : Color) :
    Except Fault Grid :=
  paint g color (block (Grid.clip row height g.height) (Grid.clip col width g.width))

/-- The border of a rectangle. -/
def drawRectOutline (g : Grid) (row col : Int) (height width : Nat) (color : Color) :
    Except Fault Grid :=
  let cells := block (Grid.clip row height g.height) (Grid.clip col width g.width)
  paint g color (cells.filter fun p =>
    decide ((p.row : Int) = row ∨ (p.row : Int) = Grid.lastLine row height ∨
      (p.col : Int) = col ∨ (p.col : Int) = Grid.lastLine col width))

theorem mem_positions {s : Grid.Span} {i : Nat} : i ∈ positions s ↔ s.has i = true := by
  rw [positions, List.mem_range'_1, Grid.Span.has, Bool.and_eq_true, decide_eq_true_eq,
    decide_eq_true_eq]
  omega

theorem mem_block {rows cols : Grid.Span} {p : Cell} :
    p ∈ block rows cols ↔ rows.has p.row = true ∧ cols.has p.col = true := by
  obtain ⟨r, c⟩ := p
  simp [block, mem_positions]

/-- A clipped range stays below the side. -/
theorem lt_of_has_clip {start : Int} {length side i : Nat}
    (h : (Grid.clip start length side).has i = true) : i < side := by
  rw [Grid.Span.has, Bool.and_eq_true, decide_eq_true_eq, decide_eq_true_eq] at h
  have hstop : (Grid.clip start length side).stop ≤ side := by
    simp only [Grid.clip, Grid.clamp]
    omega
  omega

/-- The cells of a clipped rectangle are cells of the grid. -/
theorem contains_of_mem_block {row col : Int} {height width : Nat} {p : Cell}
    (h : p ∈ block (Grid.clip row height g.height) (Grid.clip col width g.width)) :
    g.shape.Contains p :=
  ⟨lt_of_has_clip (mem_block.1 h).1, lt_of_has_clip (mem_block.1 h).2⟩

theorem guards_drawRect (hg : g.Sound limit) (hcolor : color ≤ maxColor) (row col : Int)
    (height width : Nat) :
    Guards (Grid.Sound limit) (drawRect g row col height width color)
      (.ok (g.drawRect row col height width color)) :=
  guards_paint hg hcolor (fun _ hp => contains_of_mem_block hp) fun r c => by
    rw [mem_block, Bool.and_eq_true]

theorem guards_drawRectOutline (hg : g.Sound limit) (hcolor : color ≤ maxColor) (row col : Int)
    (height width : Nat) :
    Guards (Grid.Sound limit) (drawRectOutline g row col height width color)
      (.ok (g.drawRectOutline row col height width color)) :=
  guards_paint hg hcolor (fun _ hp => contains_of_mem_block (List.mem_of_mem_filter hp))
    fun r c => by rw [List.mem_filter, mem_block, Bool.and_eq_true, Bool.and_eq_true]

end Guarded

end GridRepair
