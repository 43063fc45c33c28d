/-
# Patching

The comparison of two grids of one shape is a patch: it lists every cell where they differ once, in
reading order, and when the listed cells are replaced one after another in the prediction, by the
colors that are expected there, the result is the expected grid (`Diff.between_patches`).

One invariant carries the replacements, `Diff.Completes`: outside the cells that are still to be
replaced, the grid is the expected one already.  A replacement keeps it (`Completes.set`), so at the
end of the list nothing is left to differ (`Completes.patch_eq`).

The list is also what reading the two stores side by side gives, with rows and columns computed from
positions (`Diff.wrongCells_eq_zip`).
-/
import GridRepair.Proofs.Comparison
import GridRepair.Proofs.Components
import GridRepair.Proofs.Rectangles

namespace GridRepair

namespace Grid

variable {g : Grid} {p : Cell} {color : Color}

/-- The cell of a position holds what is stored there. -/
theorem get?_position {i : Nat} (hi : i < g.cells.size) :
    g.get? (i / g.width) (i % g.width) = some g.cells[i] := by
  have hi' : i < g.height * g.width := g.size_cells ▸ hi
  rw [get?_eq_some (row_lt hi') (col_lt hi')]
  simp only [colorAt, Nat.mul_comm _ g.width, Nat.div_add_mod]

/-- A cell of a valid grid shows one of the colors. -/
theorem Valid.get?_le (hg : g.Valid) {r c : Nat} (h : g.get? r c = some color) :
    color ≤ maxColor := by
  have hin : g.shape.Contains ⟨r, c⟩ := contains_of_get? h
  rw [get?_eq_some hin.1 hin.2, Option.some.injEq] at h
  rw [← h]
  exact hg.2.2 _ (Array.getElem_mem _)

/-- A cell of the grid can be replaced, and no other cell changes. -/
theorem exists_set (hp : g.shape.Contains p) (hcolor : color ≤ maxColor) :
    ∃ out, g.set p color = .ok out ∧ g.Paints (· = p) color out := by
  refine ⟨_, ?_, (g.paints_mapIdx color fun r c => r = p.row ∧ c = p.col).congr fun q _ => ?_⟩
  · rw [set, color?_of_le hcolor]
    exact if_pos hp
  · obtain ⟨r, c⟩ := p
    exact (Cell.mk.injEq ..).symm.to_iff

end Grid

namespace Diff

/-! ## The list of wrong cells -/

variable {predicted expected : Grid}

/-- Entries for cells of a shape stand in the order of their cells. -/
theorem pairwise_filterMap_cells {f : Cell → Option WrongCell}
    (hf : ∀ p w, f p = some w → w.cell = p) (s : Shape) :
    (s.cells.filterMap f).Pairwise fun v w => v.cell.Before w.cell := by
  rw [List.pairwise_filterMap]
  refine s.pairwise_cells.imp fun {p q} hbefore v hv w hw => ?_
  rw [hf p v hv, hf q w hw]
  exact hbefore

/-- The wrong cells are listed in reading order. -/
theorem pairwise_wrongCells (predicted expected : Grid) :
    (wrongCells predicted expected).Pairwise fun v w => v.cell.Before w.cell := by
  unfold wrongCells
  refine pairwise_filterMap_cells (fun p w hw => ?_) _
  split at hw
  · split at hw
    · cases hw
    · cases hw
      rfl
  · cases hw

/-- The wrong cells are found by reading the two stores side by side: the row and the column of a
position are its quotient and its remainder by the width. -/
theorem wrongCells_eq_zip (h : predicted.shape = expected.shape) :
    wrongCells predicted expected =
      ((predicted.cells.toList.zip expected.cells.toList).zipIdx.filter fun x => x.1.1 ≠ x.1.2).map
        fun x => ⟨⟨x.2 / expected.width, x.2 % expected.width⟩, x.1.1, x.1.2, .of x.1.1 x.1.2⟩ := by
  have hheight := Grid.height_eq h
  have hwidth := Grid.width_eq h
  have hpredicted : predicted.cells.size = expected.height * expected.width := by
    rw [predicted.size_cells, hheight, hwidth]
  have hexpected := expected.size_cells
  have hzip : (predicted.cells.toList.zip expected.cells.toList).zipIdx =
      List.ofFn fun i : Fin (expected.height * expected.width) =>
        ((predicted.cells[i], expected.cells[i]), i.val) := by
    refine List.ext_getElem ?_ fun i hi hi' => ?_
    · simp [hpredicted, hexpected]
    · simp
  rw [hzip, wrongCells, Shape.cells_eq_ofFn, List.ofFn_eq_map, List.ofFn_eq_map,
    List.filterMap_map, List.filter_map, List.map_map, ← List.filterMap_eq_map,
    ← List.filterMap_eq_filter, List.filterMap_filterMap]
  refine List.filterMap_congr fun (i : Fin (expected.height * expected.width)) _ => ?_
  have hx : predicted.get? (i / expected.width) (i % expected.width) = some predicted.cells[i] := by
    have hposition := Grid.get?_position (g := predicted) (i.isLt.trans_eq hpredicted.symm)
    rwa [hwidth] at hposition
  have hy : expected.get? (i / expected.width) (i % expected.width) = some expected.cells[i] :=
    Grid.get?_position _
  simp only [Function.comp_apply, Grid.shape, hx, hy, Option.guard]
  by_cases hxy : predicted.cells[i] = expected.cells[i]
  · simp [hxy]
  · rw [if_neg hxy, if_pos (by simpa using hxy)]
    rfl

/-! ## Replacing the listed cells -/

/-- The listed cells are replaced one after another by the colors that are expected there. -/
def patch (ws : List WrongCell) (g : Grid) : Except Fault Grid :=
  ws.foldlM (fun g w => g.set w.cell w.expected) g

/-- The listed cells show what is expected there, and a grid of the expected shape differs from the
expected one in listed cells only. -/
structure Completes (ws : List WrongCell) (g expected : Grid) : Prop where
  shape_eq : g.shape = expected.shape
  right : ∀ w ∈ ws, expected.get? w.cell.row w.cell.col = some w.expected
  rest : ∀ p : Cell, g.get? p.row p.col ≠ expected.get? p.row p.col → ∃ w ∈ ws, w.cell = p

variable {ws : List WrongCell} {w : WrongCell} {g : Grid}

/-- The wrong cells of two grids of one shape complete the first one to the second one. -/
theorem completes_wrongCells (h : predicted.shape = expected.shape) :
    Completes (wrongCells predicted expected) predicted expected where
  shape_eq := h
  right w hw := (mem_wrongCells_iff.1 hw).2.1
  rest p hne := by
    by_cases hp : expected.shape.Contains p
    · have hp' : predicted.shape.Contains p := h ▸ hp
      obtain ⟨x, hx⟩ := Grid.exists_get? hp'
      obtain ⟨y, hy⟩ := Grid.exists_get? hp
      rw [hx, hy, ne_eq, Option.some.injEq] at hne
      exact ⟨⟨p, x, y, .of x y⟩, mem_wrongCells_iff.2 ⟨hx, hy, hne, rfl⟩, rfl⟩
    · exact absurd (by rw [Grid.get?_eq_none.2 hp, Grid.get?_eq_none.2 (h ▸ hp)]) hne

namespace Completes

/-- The first listed cell can be replaced, and the others complete the result. -/
theorem set (h : Completes (w :: ws) g expected) (hexpected : expected.Valid) :
    ∃ g', g.set w.cell w.expected = .ok g' ∧ Completes ws g' expected := by
  have hw := h.right w List.mem_cons_self
  have hin : g.shape.Contains w.cell := h.shape_eq ▸ Grid.contains_of_get? hw
  obtain ⟨g', hset, hpaints⟩ := Grid.exists_set hin (hexpected.get?_le hw)
  refine ⟨g', hset, hpaints.shape_eq.trans h.shape_eq,
    fun v hv => h.right v (List.mem_cons_of_mem _ hv), fun p hne => ?_⟩
  -- the replaced cell is right now, so another listed cell is the one that differs
  have hp : p ≠ w.cell := by
    rintro rfl
    exact hne ((hpaints.inside _ hin rfl).trans hw.symm)
  rw [hpaints.outside p hp] at hne
  obtain ⟨v, hv, hcell⟩ := h.rest p hne
  rcases List.mem_cons.1 hv with rfl | hv
  · exact absurd hcell.symm hp
  · exact ⟨v, hv, hcell⟩

/-- Replacing all listed cells gives the expected grid. -/
theorem patch_eq (h : Completes ws g expected) (hexpected : expected.Valid) :
    patch ws g = .ok expected := by
  induction ws generalizing g with
  | nil =>
    have hget : ∀ r c, g.get? r c = expected.get? r c := by
      intro r c
      by_contra hne
      obtain ⟨w, hw, -⟩ := h.rest ⟨r, c⟩ hne
      cases hw
    show Except.ok g = _
    rw [Grid.ext_get? h.shape_eq hget]
  | cons w ws ih =>
    obtain ⟨g', hset, hrest⟩ := h.set hexpected
    show (g.set w.cell w.expected >>= patch ws) = _
    rw [hset]
    exact ih hrest

end Completes

/-! ## Comparisons as patches -/

/-- The list holds exactly the cells where two grids differ, once and in reading order, each with
its two colors and with what is wrong about them, and it is a patch from one grid to the other. -/
structure Patches (ws : List WrongCell) (g expected : Grid) : Prop where
  mem_iff : ∀ w, w ∈ ws ↔
    g.get? w.cell.row w.cell.col = some w.predicted ∧
      expected.get? w.cell.row w.cell.col = some w.expected ∧ w.predicted ≠ w.expected ∧
      w.kind = if w.predicted = background then .lacking
        else if w.expected = background then .surplus else .otherColor
  ordered : ws.Pairwise fun v w => v.cell.Before w.cell
  patch_eq : patch ws g = .ok expected

/-- The wrong cells of two grids of one shape are a patch. -/
theorem patches_wrongCells (h : predicted.shape = expected.shape) (hexpected : expected.Valid) :
    Patches (wrongCells predicted expected) predicted expected where
  mem_iff _ := mem_wrongCells_iff
  ordered := pairwise_wrongCells predicted expected
  patch_eq := (completes_wrongCells h).patch_eq hexpected

variable {S : Type} [Scalar S]

/-- A comparison of grids of one shape counts their wrong cells. -/
theorem errors_between (h : predicted.shape = expected.shape) :
    (between predicted expected : Diff S).errors = (wrongCells predicted expected).length := by
  rw [between, if_pos h]

/-- A comparison of grids of different shapes lists no cell, and counts all expected ones. -/
theorem cells_between_of_shape_ne (h : predicted.shape ≠ expected.shape) :
    (between predicted expected : Diff S).cells = [] ∧
      (between predicted expected : Diff S).errors = expected.height * expected.width := by
  rw [between, if_neg h]
  exact ⟨rfl, expected.size_cells⟩

/-- The extra colors are those that only the prediction has. -/
theorem mem_extraColors_between {c : Color} :
    c ∈ (between predicted expected : Diff S).extraColors ↔
      c ∈ predicted.cells ∧ c ∉ expected.cells := by
  have heq : (between predicted expected : Diff S).extraColors =
      predicted.palette.diff expected.palette := by
    rw [between]
    split <;> rfl
  rw [heq, Palette.mem_diff, Grid.mem_palette, Grid.mem_palette]

/-- The missing colors are those that only the expected grid has. -/
theorem mem_missingColors_between {c : Color} :
    c ∈ (between predicted expected : Diff S).missingColors ↔
      c ∈ expected.cells ∧ c ∉ predicted.cells := by
  have heq : (between predicted expected : Diff S).missingColors =
      expected.palette.diff predicted.palette := by
    rw [between]
    split <;> rfl
  rw [heq, Palette.mem_diff, Grid.mem_palette, Grid.mem_palette]

/-- **A comparison is an exact patch.**  A comparison with a valid expected grid tells whether the
grids are equal and whether their shapes are.  For grids of one shape, it lists the cells where they
differ and counts them; replacing the listed cells in the prediction, one after another, never fails
and gives the expected grid.  For grids of different shapes, it lists nothing and counts all cells
of the expected grid.  In any case, it names the colors that only one of the grids has. -/
theorem between_patches (predicted : Grid) {expected : Grid} (hexpected : expected.Valid) :
    let d : Diff S := between predicted expected
    (d.exact = true ↔ predicted = expected) ∧
    (d.sameShape = true ↔ predicted.shape = expected.shape) ∧
    (predicted.shape = expected.shape →
      Patches d.cells predicted expected ∧ d.errors = d.cells.length) ∧
    (predicted.shape ≠ expected.shape →
      d.cells = [] ∧ d.errors = expected.height * expected.width) ∧
    (∀ c, c ∈ d.extraColors ↔ c ∈ predicted.cells ∧ c ∉ expected.cells) ∧
    ∀ c, c ∈ d.missingColors ↔ c ∈ expected.cells ∧ c ∉ predicted.cells := by
  intro d
  refine ⟨exact_between_iff predicted expected, sameShape_between_iff predicted expected,
    fun h => ?_, cells_between_of_shape_ne, fun c => mem_extraColors_between,
    fun c => mem_missingColors_between⟩
  rw [errors_between h, cells_between h]
  exact ⟨patches_wrongCells h hexpected, rfl⟩

/-- In a grid of two rows and three columns, the third and the fourth cell in reading order are at
the end of the first row and at the start of the second one. -/
theorem between_patches_two_three :
    let g : Grid := ⟨2, 3, #[1, 2, 0, 4, 5, 6], rfl⟩
    let expected : Grid := ⟨2, 3, #[1, 2, 3, 0, 5, 7], rfl⟩
    let d : Diff Rat := between g expected
    expected.Valid ∧
    d.cells = [⟨⟨0, 2⟩, 0, 3, .lacking⟩, ⟨⟨1, 0⟩, 4, 0, .surplus⟩, ⟨⟨1, 2⟩, 6, 7, .otherColor⟩] ∧
      patch d.cells g = .ok expected ∧ 4 ∈ d.extraColors ∧ 4 ∉ d.missingColors := by
  intro g expected d
  have hexpected : expected.Valid := by decide
  have hcells : d.cells =
      [⟨⟨0, 2⟩, 0, 3, .lacking⟩, ⟨⟨1, 0⟩, 4, 0, .surplus⟩, ⟨⟨1, 2⟩, 6, 7, .otherColor⟩] := rfl
  obtain ⟨-, -, hsame, -, hextra, hmissing⟩ := between_patches g hexpected (S := Rat)
  exact ⟨hexpected, hcells, (hsame rfl).1.patch_eq, (hextra 4).2 (by decide +kernel),
    mt (hmissing 4).1 (by decide +kernel)⟩

end Diff

end GridRepair
