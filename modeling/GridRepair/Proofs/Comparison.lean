/-
# Exact comparisons

A comparison is exact when the grids are equal (`exact_between_iff`): wrong cells are listed for
grids of one shape (`mem_wrongCells_iff`), and none is listed when the grids have the same view.
-/
import GridRepair.Diff

namespace GridRepair

/-- A cell inside the grid shows a color. -/
theorem Grid.exists_get? {g : Grid} {p : Cell} (h : g.shape.Contains p) :
    ∃ x, g.get? p.row p.col = some x :=
  ⟨_, get?_eq_some h.1 h.2⟩

namespace Diff

/-- The wrong cells of two grids of one shape are the cells where they have different colors. -/
theorem mem_wrongCells_iff {predicted expected : Grid} {w : WrongCell} :
    w ∈ wrongCells predicted expected ↔
      predicted.get? w.cell.row w.cell.col = some w.predicted ∧
        expected.get? w.cell.row w.cell.col = some w.expected ∧ w.predicted ≠ w.expected ∧
        w.kind = .of w.predicted w.expected := by
  rw [wrongCells, List.mem_filterMap]
  constructor
  · rintro ⟨p, -, h⟩
    cases hx : predicted.get? p.row p.col with
    | none => simp [hx] at h
    | some x =>
      cases hy : expected.get? p.row p.col with
      | none => simp [hx, hy] at h
      | some y =>
        simp only [hx, hy] at h
        by_cases hxy : x = y
        · rw [if_pos hxy] at h
          cases h
        · rw [if_neg hxy, Option.some.injEq] at h
          subst h
          exact ⟨hx, hy, hxy, rfl⟩
  · rintro ⟨hx, hy, hne, hkind⟩
    refine ⟨w.cell, Shape.mem_cells.2 (Grid.contains_of_get? hy), ?_⟩
    simp only [hx, hy, if_neg hne, ← hkind]

/-- Two grids of one shape have no wrong cell exactly when they are equal. -/
theorem wrongCells_eq_nil_iff {predicted expected : Grid}
    (h : predicted.shape = expected.shape) :
    wrongCells predicted expected = [] ↔ predicted = expected := by
  constructor
  · intro hnil
    refine Grid.ext_get? h fun r c => ?_
    -- both grids have a color at the cells of their shape, and a cell of two colors is listed
    by_cases hin : expected.shape.Contains ⟨r, c⟩
    · have hin' : predicted.shape.Contains ⟨r, c⟩ := h ▸ hin
      have hp := Grid.get?_eq_some (g := predicted) hin'.1 hin'.2
      have he := Grid.get?_eq_some (g := expected) hin.1 hin.2
      have hcell := (List.filterMap_eq_nil_iff.1 hnil) ⟨r, c⟩ (Shape.mem_cells.2 hin)
      simp only [hp, he] at hcell
      by_cases hxy : predicted.colorAt r c hin'.1 hin'.2 = expected.colorAt r c hin.1 hin.2
      · rw [hp, he, hxy]
      · rw [if_neg hxy] at hcell
        cases hcell
    · rw [Grid.get?_eq_none.2 hin, Grid.get?_eq_none.2 (h ▸ hin)]
  · rintro rfl
    rw [wrongCells, List.filterMap_eq_nil_iff]
    intro p _
    cases predicted.get? p.row p.col <;> simp

variable {S : Type} [Scalar S]

/-- A comparison notes the shape of the prediction. -/
theorem predictedShape_between (predicted expected : Grid) :
    (between predicted expected : Diff S).predictedShape = predicted.shape := by
  rw [between]
  split <;> rfl

/-- A comparison notes the shape of the expected grid. -/
theorem expectedShape_between (predicted expected : Grid) :
    (between predicted expected : Diff S).expectedShape = expected.shape := by
  rw [between]
  split <;> rfl

/-- A comparison notes whether the shapes are the same. -/
theorem sameShape_between_iff (predicted expected : Grid) :
    (between predicted expected : Diff S).sameShape = true ↔ predicted.shape = expected.shape := by
  by_cases h : predicted.shape = expected.shape
  · rw [between, if_pos h]
    exact iff_of_true rfl h
  · rw [between, if_neg h]
    exact iff_of_false Bool.false_ne_true h

/-- A comparison of grids of one shape lists their wrong cells. -/
theorem cells_between {predicted expected : Grid} (h : predicted.shape = expected.shape) :
    (between predicted expected : Diff S).cells = wrongCells predicted expected := by
  rw [between, if_pos h]

/-- A comparison is exact when the prediction is the expected grid. -/
theorem exact_between_iff (predicted expected : Grid) :
    (between predicted expected : Diff S).exact = true ↔ predicted = expected := by
  by_cases h : predicted.shape = expected.shape
  · rw [between, if_pos h, List.isEmpty_iff]
    exact wrongCells_eq_nil_iff h
  · rw [between, if_neg h]
    constructor
    · intro hfalse
      cases hfalse
    · rintro rfl
      exact absurd rfl h

end Diff

end GridRepair
