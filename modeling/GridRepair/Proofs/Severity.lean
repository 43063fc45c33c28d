/-
# What wrong cells cost

With exact scores, the severity of a comparison is what its score lacks to one
(`Diff.score_add_severity`).  For grids of one shape it is the penalty for the cells where they
differ (`Diff.severity_between`): nothing for no such cell, and otherwise a tenth and a share of
eight tenths.  So the penalty grows with the number of wrong cells, and it never comes to more than
nine tenths, while a prediction of another shape loses everything.
-/
import Mathlib.Algebra.Order.Field.Rat
import Mathlib.Tactic.Linarith
import Mathlib.Tactic.Positivity
import GridRepair.Proofs.Comparison
import GridRepair.Proofs.Spreading

namespace GridRepair

namespace Grid

/-- The number of cells of the second grid where the first one shows something else. -/
def mismatches (g m : Grid) : Nat :=
  m.shape.cells.countP fun p => decide (g.get? p.row p.col ≠ m.get? p.row p.col)

/-- No more cells differ than there are. -/
theorem mismatches_le (g m : Grid) : g.mismatches m ≤ m.area := by
  unfold mismatches
  refine (List.countP_le_length ..).trans ?_
  rw [Shape.length_cells]
  exact m.size_cells.ge

end Grid

namespace Diff

variable {predicted expected : Grid}

/-! ## Wrong cells -/

/-- Among two grids of one shape, the wrong cells are the cells where they differ. -/
theorem length_wrongCells (h : predicted.shape = expected.shape) :
    (wrongCells predicted expected).length = predicted.mismatches expected := by
  rw [wrongCells, List.length_filterMap_eq_countP, Grid.mismatches]
  refine List.countP_congr fun p hp => ?_
  have hin : expected.shape.Contains p := Shape.mem_cells.1 hp
  have hin' : predicted.shape.Contains p := h ▸ hin
  obtain ⟨x, hx⟩ := Grid.exists_get? hin'
  obtain ⟨y, hy⟩ := Grid.exists_get? hin
  rw [hx, hy]
  by_cases hxy : x = y
  · simp [hxy]
  · simp [hxy]

/-! ## Penalties -/

/-- What is lost by wrong cells among some number of cells: a tenth, and the share of the wrong ones
in eight tenths. -/
def penalty (wrong cells : Nat) : Rat :=
  if wrong = 0 then 0 else 1 / 10 + 8 / 10 * (wrong / cells)

variable {wrong more cells : Nat}

/-- Wrong cells cost a tenth at least. -/
theorem le_penalty (cells : Nat) (h : wrong ≠ 0) : 1 / 10 ≤ penalty wrong cells := by
  rw [penalty, if_neg h]
  have hrate : (0 : Rat) ≤ wrong / cells := by positivity
  linarith

/-- Wrong cells cost nine tenths at most. -/
theorem penalty_le (h : wrong ≤ cells) : penalty wrong cells ≤ 9 / 10 := by
  unfold penalty
  split
  · norm_num
  · have hrate : (wrong / cells : Rat) ≤ 1 :=
      div_le_one_of_le₀ (Nat.cast_le.2 h) (Nat.cast_nonneg _)
    linarith

/-- More wrong cells cost more. -/
theorem penalty_lt (h : wrong < more) (hmore : more ≤ cells) :
    penalty wrong cells < penalty more cells := by
  by_cases hzero : wrong = 0
  · have hle := le_penalty cells (show more ≠ 0 by omega)
    rw [penalty, if_pos hzero]
    linarith
  · have hcells : (0 : Rat) < cells := Nat.cast_pos.2 (by omega)
    have hrate : (wrong / cells : Rat) < more / cells :=
      div_lt_div_of_pos_right (Nat.cast_lt.2 h) hcells
    rw [penalty, penalty, if_neg hzero, if_neg (show more ≠ 0 by omega)]
    linarith

/-! ## Scores of comparisons -/

/-- Grids of one shape that differ in no cell are equal. -/
theorem mismatches_eq_zero_iff (h : predicted.shape = expected.shape) :
    predicted.mismatches expected = 0 ↔ predicted = expected := by
  rw [← length_wrongCells h, List.length_eq_zero_iff]
  exact wrongCells_eq_nil_iff h

/-- Among grids of one shape, the severity is the penalty for the cells where they differ. -/
theorem severity_between (h : predicted.shape = expected.shape) :
    (between predicted expected : Diff Rat).severity =
      penalty (predicted.mismatches expected) expected.area := by
  have hseverity : (between predicted expected : Diff Rat).severity =
      if (wrongCells predicted expected).isEmpty then 0.0
      else 0.1 + 0.8 * (((wrongCells predicted expected).length : Rat) / expected.area) := by
    rw [between, if_pos h]
    rfl
  rw [hseverity, penalty, ← length_wrongCells h]
  simp only [List.isEmpty_iff, List.length_eq_zero_iff]
  split
  · norm_num
  · norm_num

/-- An exact comparison scores one. -/
theorem score_of_exact {d : Diff Rat} (h : d.exact = true) : d.score = 1 := by
  rw [score, if_pos h]
  norm_num

/-- Among grids of one shape, the score lacks the penalty for the cells where they differ. -/
theorem score_between (h : predicted.shape = expected.shape) :
    (between predicted expected : Diff Rat).score =
      1 - penalty (predicted.mismatches expected) expected.area := by
  have haccuracy : (between predicted expected : Diff Rat).accuracy =
      1.0 - (predicted.mismatches expected : Rat) / expected.area := by
    rw [between, if_pos h, ← length_wrongCells h]
    rfl
  rw [penalty]
  by_cases heq : predicted = expected
  · rw [score_of_exact ((exact_between_iff predicted expected).2 heq),
      if_pos ((mismatches_eq_zero_iff h).2 heq), sub_zero]
  · rw [score, if_neg (mt (exact_between_iff predicted expected).1 heq),
      if_pos ((sameShape_between_iff predicted expected).2 h), haccuracy,
      if_neg (mt (mismatches_eq_zero_iff h).1 heq)]
    linarith

/-- Different shapes score nothing, and their severity is one. -/
theorem score_between_of_shape_ne (h : predicted.shape ≠ expected.shape) :
    (between predicted expected : Diff Rat).score = 0 ∧
      (between predicted expected : Diff Rat).severity = 1 := by
  rw [score, between, if_neg h]
  norm_num

/-- The severity is what the score lacks to one. -/
theorem score_add_severity (predicted expected : Grid) :
    (between predicted expected : Diff Rat).score + (between predicted expected).severity = 1 := by
  by_cases h : predicted.shape = expected.shape
  · rw [score_between h, severity_between h, sub_add_cancel]
  · obtain ⟨hscore, hseverity⟩ := score_between_of_shape_ne h
    rw [hscore, hseverity, zero_add]

/-- A prediction of the right shape scores a tenth at least. -/
theorem le_score_between (h : predicted.shape = expected.shape) :
    1 / 10 ≤ (between predicted expected : Diff Rat).score := by
  have hle := penalty_le (Grid.mismatches_le predicted expected)
  rw [score_between h]
  linarith

/-- Scores are not negative. -/
theorem score_between_nonneg (predicted expected : Grid) :
    0 ≤ (between predicted expected : Diff Rat).score := by
  by_cases h : predicted.shape = expected.shape
  · have hle := le_score_between h
    linarith
  · exact (score_between_of_shape_ne h).1.ge

/-- Comparing different grids scores at most nine tenths. -/
theorem score_between_le_of_ne (hne : predicted ≠ expected) :
    (between predicted expected : Diff Rat).score ≤ 9 / 10 := by
  by_cases h : predicted.shape = expected.shape
  · have hle := le_penalty expected.area (mt (mismatches_eq_zero_iff h).1 hne)
    rw [score_between h]
    linarith
  · rw [(score_between_of_shape_ne h).1]
    norm_num

/-- No comparison scores more than one. -/
theorem score_between_le_one (predicted expected : Grid) :
    (between predicted expected : Diff Rat).score ≤ 1 := by
  by_cases heq : predicted = expected
  · exact le_of_eq (score_of_exact ((exact_between_iff predicted expected).2 heq))
  · have hle := score_between_le_of_ne heq
    linarith

end Diff

end GridRepair
