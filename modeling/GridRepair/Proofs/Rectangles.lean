/-
# Rectangles on a grid

A rectangle of the unbounded plane covers cells, and some of these lie on its edges.  Painting one
on a grid gives its color to the cells of the grid that it covers, or that lie on its edges, and
leaves the others alone (`Grid.Paints`).

The operations compute with saturating integers: a length counts up to `maxInt`, sums stop at the
ends of the range, and positions are clipped to the side.  On a grid that can be stored, with no
more than `maxInt` cells, only the first of these can be seen (`Grid.has_clip`,
`Grid.eq_lastLine_iff`).  So an outline with integers for its sides is drawn exactly
(`Grid.drawRectOutline_paints_edges`), and a filled rectangle is drawn exactly as far as its sides
count (`Grid.drawRect_paints_reach`).
-/
import Mathlib.Algebra.Order.Group.Int
import GridRepair.Catalogue
import GridRepair.Proofs.Inversion

namespace GridRepair

/-! ## Rectangles of the plane -/

/-- A rectangle of the unbounded plane: its top left cell, its height and its width. -/
structure Rectangle where
  row : Int
  col : Int
  height : Int
  width : Int

namespace Rectangle

/-- The cell lies in the rectangle. -/
def Covers (R : Rectangle) (p : Cell) : Prop :=
  (R.row ≤ p.row ∧ p.row < R.row + R.height) ∧ R.col ≤ p.col ∧ p.col < R.col + R.width

/-- The cell lies in the rectangle, on its first or last row or on its first or last column. -/
def Edges (R : Rectangle) (p : Cell) : Prop :=
  R.Covers p ∧
    ((p.row : Int) = R.row ∨ (p.row : Int) = R.row + R.height - 1 ∨
      (p.col : Int) = R.col ∨ (p.col : Int) = R.col + R.width - 1)

instance (R : Rectangle) (p : Cell) : Decidable (R.Covers p) :=
  inferInstanceAs (Decidable (_ ∧ _))

instance (R : Rectangle) (p : Cell) : Decidable (R.Edges p) :=
  inferInstanceAs (Decidable (_ ∧ _))

end Rectangle

namespace Grid

variable {g : Grid} {color : Color} {region region' : Cell → Prop}

/-! ## Painted regions -/

/-- A valid grid with no more cells than the largest integer, as every grid in a store is. -/
structure Stored (g : Grid) : Prop where
  valid : g.Valid
  area_le : (g.area : Int) ≤ maxInt

/-- The sides of a stored grid are integers. -/
theorem Stored.height_le (h : g.Stored) : (g.height : Int) ≤ maxInt := by
  have hside : g.height ≤ g.area := by
    rw [area, g.size_cells]
    exact Nat.le_mul_of_pos_right _ h.valid.2.1
  exact (Int.ofNat_le.2 hside).trans h.area_le

theorem Stored.width_le (h : g.Stored) : (g.width : Int) ≤ maxInt := by
  have hside : g.width ≤ g.area := by
    rw [area, g.size_cells]
    exact Nat.le_mul_of_pos_left _ h.valid.1
  exact (Int.ofNat_le.2 hside).trans h.area_le

/-- A grid painted: the cells of a region have the color in place of their own, and the others are as
they were. -/
structure Paints (g : Grid) (region : Cell → Prop) (color : Color) (out : Grid) : Prop where
  shape_eq : out.shape = g.shape
  inside : ∀ p, g.shape.Contains p → region p → out.get? p.row p.col = some color
  outside : ∀ p, ¬ region p → out.get? p.row p.col = g.get? p.row p.col

/-- Only the cells of the grid matter. -/
theorem Paints.congr {out : Grid} (h : g.Paints region color out)
    (hregion : ∀ p, g.shape.Contains p → (region p ↔ region' p)) : g.Paints region' color out where
  shape_eq := h.shape_eq
  inside := by
    intro p hp hin
    exact h.inside p hp ((hregion p hp).2 hin)
  outside := by
    intro p hout
    by_cases hp : g.shape.Contains p
    · exact h.outside p fun hin => hout ((hregion p hp).1 hin)
    · have hp' : ¬ out.shape.Contains p := h.shape_eq ▸ hp
      rw [get?_eq_none.2 hp, get?_eq_none.2 hp']

/-- A grid is painted where a test on row and column is passed. -/
theorem paints_mapIdx (g : Grid) (color : Color) (test : Nat → Nat → Prop)
    [∀ r c, Decidable (test r c)] :
    g.Paints (fun p => test p.row p.col) color
      (g.mapIdx fun r c x => if test r c then color else x) where
  shape_eq := rfl
  inside := by
    intro p hp htest
    rw [get?_mapIdx, get?_eq_some hp.1 hp.2, Option.map_some, if_pos htest]
  outside := by
    intro p htest
    simp only [get?_mapIdx, if_neg htest, Option.map_id']

/-! ## Clipping -/

/-- Within a side, a clipped stretch covers what the stretch itself covers, as far as its length
counts. -/
theorem has_clip {start : Int} {length side i : Nat} (hside : (side : Int) ≤ maxInt)
    (hi : i < side) :
    (clip start length side).has i = true ↔ start ≤ i ∧ (i : Int) < start + reach length := by
  rw [Span.has, Bool.and_eq_true, decide_eq_true_eq, decide_eq_true_eq]
  simp only [clip, clamp, saturate, minInt, maxInt] at *
  omega

/-- Within a side, the last line is where the length ends, as far as it counts. -/
theorem eq_lastLine_iff {start : Int} {length side i : Nat} (hside : (side : Int) ≤ maxInt)
    (hi : i < side) :
    (i : Int) = lastLine start length ↔ (i : Int) = start + reach length - 1 := by
  simp only [lastLine, saturate]
  simp only [minInt, maxInt] at *
  omega

/-- A length that is an integer counts in full. -/
theorem reach_eq {length : Nat} (h : (length : Int) ≤ maxInt) : reach length = length :=
  min_eq_left h

/-- The length counts in full before the side ends: it is an integer, or what counts of it leads
beyond the side. -/
def CountsWithin (start : Int) (length side : Nat) : Prop :=
  (length : Int) ≤ maxInt ∨ (side : Int) ≤ start + maxInt

/-- A position of the side is left of the end of a length that counts in full. -/
theorem CountsWithin.lt_iff {start : Int} {length side i : Nat}
    (h : CountsWithin start length side) (hi : i < side) :
    (i : Int) < start + reach length ↔ (i : Int) < start + length := by
  unfold CountsWithin at h
  unfold reach
  omega

/-! ## Filled rectangles -/

/-- A filled rectangle is drawn as far as its sides count. -/
theorem drawRect_paints (hg : g.Stored) (row col : Int) (height width : Nat) (color : Color) :
    g.Paints (Rectangle.Covers ⟨row, col, reach height, reach width⟩) color
      (g.drawRect row col height width color) := by
  refine (paints_mapIdx g color _).congr fun p hp => ?_
  rw [Bool.and_eq_true, has_clip hg.height_le hp.1, has_clip hg.width_le hp.2]
  rfl

/-- **A filled rectangle is clipped exactly, as far as its sides count.**  The cells of the grid that
the rectangle covers get the color and the others keep theirs, where a side beyond `maxInt` counts as
`maxInt`; a stroke is a rectangle with one row or with one column.  So a rectangle is drawn as it
stands as soon as each of its sides is at most `maxInt`, or `maxInt` cells of that side already lead
to the end of the grid. -/
theorem drawRect_paints_reach (hg : g.Stored) (row col : Int) (height width : Nat)
    (color : Color) :
    g.Paints (Rectangle.Covers ⟨row, col, reach height, reach width⟩) color
      (g.drawRect row col height width color) ∧
    g.Paints (Rectangle.Covers ⟨row, col, 1, reach width⟩) color
      (g.drawLineH row col width color) ∧
    g.Paints (Rectangle.Covers ⟨row, col, reach height, 1⟩) color
      (g.drawLineV row col height color) ∧
    (CountsWithin row height g.height → CountsWithin col width g.width →
      g.Paints (Rectangle.Covers ⟨row, col, height, width⟩) color
        (g.drawRect row col height width color)) := by
  have hone : reach 1 = 1 := reach_eq (by decide)
  have hline := hone ▸ drawRect_paints hg row col 1 width color
  have hcolumn := hone ▸ drawRect_paints hg row col height 1 color
  refine ⟨drawRect_paints hg row col height width color, hline, hcolumn, fun hrows hcols => ?_⟩
  refine (drawRect_paints hg row col height width color).congr fun p hp => ?_
  simp only [Rectangle.Covers, hrows.lt_iff hp.1, hcols.lt_iff hp.2]

/-- A rectangle that starts above the grid and is higher than any integer is drawn as it stands. -/
theorem drawRect_paints_reach_tall :
    let g : Grid := ⟨2, 3, #[0, 1, 2, 3, 4, 5], rfl⟩
    g.Stored ∧ CountsWithin (-1) maxCount g.height ∧ CountsWithin 1 2 g.width ∧
      g.Paints (Rectangle.Covers ⟨-1, 1, maxCount, 2⟩) 9 (g.drawRect (-1) 1 maxCount 2 9) ∧
      (g.drawRect (-1) 1 maxCount 2 9).cells = #[0, 9, 9, 3, 9, 9] := by
  intro g
  have hstored : g.Stored := ⟨by decide, by decide⟩
  have hrows : CountsWithin (-1) maxCount g.height := .inr (by decide)
  have hcols : CountsWithin 1 2 g.width := .inl (by decide)
  have hexact := (drawRect_paints_reach hstored (-1) 1 maxCount 2 9).2.2.2 hrows hcols
  exact ⟨hstored, hrows, hcols, hexact, by decide +kernel⟩

/-- A rectangle that starts as far up as it can and is as high as it can covers the cell of the
smallest grid, but what counts of its height ends above the grid, and nothing is drawn. -/
theorem not_paints_topmost :
    (dot 0).Stored ∧ Rectangle.Covers ⟨minInt, 0, maxCount, 1⟩ ⟨0, 0⟩ ∧
      (dot 0).drawRect minInt 0 maxCount 1 3 = dot 0 ∧
      ¬ (dot 0).Paints (Rectangle.Covers ⟨minInt, 0, maxCount, 1⟩) 3
        ((dot 0).drawRect minInt 0 maxCount 1 3) := by
  have hcovers : Rectangle.Covers ⟨minInt, 0, maxCount, 1⟩ ⟨0, 0⟩ := by decide
  have hsame : (dot 0).drawRect minInt 0 maxCount 1 3 = dot 0 := by decide +kernel
  refine ⟨⟨by decide, by decide⟩, hcovers, hsame, fun h => ?_⟩
  have hdrawn := h.inside ⟨0, 0⟩ (by decide) hcovers
  rw [hsame] at hdrawn
  exact absurd hdrawn (by decide)

/-! ## Outlines -/

/-- An outline is drawn on the edges of the rectangle, as far as its sides count. -/
theorem drawRectOutline_paints (hg : g.Stored) (row col : Int) (height width : Nat)
    (color : Color) :
    g.Paints (Rectangle.Edges ⟨row, col, reach height, reach width⟩) color
      (g.drawRectOutline row col height width color) := by
  refine (paints_mapIdx g color _).congr fun p hp => ?_
  rw [Bool.and_eq_true, Bool.and_eq_true, decide_eq_true_eq, has_clip hg.height_le hp.1,
    has_clip hg.width_le hp.2, eq_lastLine_iff hg.height_le hp.1, eq_lastLine_iff hg.width_le hp.2]
  rfl

/-- The call of the catalogue with a count for each side. -/
theorem apply_drawRectOutline {g : Grid} {row col : Int} {height width : Nat} {color : Color}
    (hcolor : color ≤ maxColor) :
    Registry.standard.apply "draw_rect_outline" g
        [.int row, .int col, .int height, .int width, .int color] =
      .ok (.grid (g.drawRectOutline row col height width color)) := by
  let a : Args :=
    ⟨"draw_rect_outline", [.int row, .int col, .int height, .int width, .int color]⟩
  have hcall : Registry.standard.apply "draw_rect_outline" g a.values =
      (do
        let row ← a.int 0
        let col ← a.int 1
        let height ← a.count 2
        let width ← a.count 3
        let color ← a.color 4
        pure (g.drawRectOutline row col height width color) : Except Fault Grid).map .grid := rfl
  have hrow : a.int 0 = .ok row := Args.int_eq rfl
  have hcol : a.int 1 = .ok col := Args.int_eq rfl
  have hheight : a.count 2 = .ok height := Args.count_eq rfl
  have hwidth : a.count 3 = .ok width := Args.count_eq rfl
  have hpaint : a.color 4 = .ok color := Args.color_eq hcolor rfl
  rw [hrow, hcol, hheight, hwidth, hpaint] at hcall
  exact hcall

/-- **An outline is drawn exactly.**  Called with integers for its place and its sides, of which the
sides are not negative, the primitive gives a grid: the cells that lie on the edges of the rectangle
have the color, and the others are as they were.  An edge outside the grid is not drawn at all. -/
theorem drawRectOutline_paints_edges (hg : g.Stored) (row col : Int) {height width : Nat}
    (hheight : (height : Int) ≤ maxInt) (hwidth : (width : Int) ≤ maxInt)
    (hcolor : color ≤ maxColor) :
    ∃ out, Registry.standard.apply "draw_rect_outline" g
        [.int row, .int col, .int height, .int width, .int color] = .ok (.grid out) ∧
      g.Paints (Rectangle.Edges ⟨row, col, height, width⟩) color out := by
  refine ⟨_, apply_drawRectOutline hcolor, ?_⟩
  have hpaints := drawRectOutline_paints hg row col height width color
  rwa [reach_eq hheight, reach_eq hwidth] at hpaints

/-- The outline of a rectangle that begins above the grid and is wider than it.  Its left edge and
its last row are drawn; its first row and its right edge are outside, and the cells at the border of
the grid that are nearest to them stay. -/
theorem drawRectOutline_paints_edges_offset :
    ∃ out, Registry.standard.apply "draw_rect_outline" (full 3 4 0)
        [.int (-1), .int 1, .int 3, .int maxInt, .int 5] = .ok (.grid out) ∧
      out.get? 0 1 = some 5 ∧ out.get? 1 3 = some 5 ∧ out.get? 0 2 = some 0 ∧
      out.get? 0 3 = some 0 ∧ out.get? 2 1 = some 0 := by
  have hstored : (full 3 4 0).Stored := ⟨by decide, by decide⟩
  have hheight : ((3 : Nat) : Int) ≤ maxInt := by decide
  have hwidth : (maxInt.toNat : Int) ≤ maxInt := by decide
  have hcolor : (5 : Color) ≤ maxColor := by decide
  obtain ⟨out, happly, hpaints⟩ :=
    drawRectOutline_paints_edges hstored (-1) 1 hheight hwidth hcolor
  exact ⟨out, happly, hpaints.inside ⟨0, 1⟩ (by decide) (by decide),
    hpaints.inside ⟨1, 3⟩ (by decide) (by decide), hpaints.outside ⟨0, 2⟩ (by decide),
    hpaints.outside ⟨0, 3⟩ (by decide), hpaints.outside ⟨2, 1⟩ (by decide)⟩

end Grid

end GridRepair
