/-
# Faithful scores

The total of comparisons is the mean of their scores, out of one hundred.  So it is one hundred for
exact comparisons only (`Diff.total_eq_hundred_iff`), and when one pair is replaced by another one,
the totals are in the order of the scores of these pairs (`Diff.total_le_total_iff`).
-/
import GridRepair.Proofs.Grading

namespace GridRepair

namespace Diff

variable {predicted expected predicted' expected' : Grid}

/-! ## Comparisons of pairs -/

/-- The comparisons of pairs of a prediction and an expected grid. -/
def ofPairs (S : Type) [Scalar S] (pairs : List (Grid × Grid)) : List (Diff S) :=
  pairs.map fun x => between x.1 x.2

variable {pairs before after : List (Grid × Grid)}

/-- A property of all comparisons of grids holds of the comparisons of pairs. -/
theorem forall_mem_ofPairs {S : Type} [Scalar S] {P : Diff S → Prop}
    (h : ∀ predicted expected, P (between predicted expected)) : ∀ d ∈ ofPairs S pairs, P d := by
  intro d hd
  obtain ⟨x, -, rfl⟩ := List.mem_map.1 hd
  exact h x.1 x.2

/-! ## Totals -/

/-- The total of comparisons of grids is between zero and one hundred. -/
theorem total_mem (pairs : List (Grid × Grid)) :
    0 ≤ total (ofPairs Rat pairs) ∧ total (ofPairs Rat pairs) ≤ 100 := by
  have hnonneg : ∀ d ∈ ofPairs Rat pairs, 0 ≤ d.score := forall_mem_ofPairs score_between_nonneg
  have hle : ∀ d ∈ ofPairs Rat pairs, d.score ≤ 1 := forall_mem_ofPairs score_between_le_one
  by_cases hne : ofPairs Rat pairs = []
  · rw [hne, total]
    norm_num
  · have hlow : 0 ≤ ((ofPairs Rat pairs).map score).sum :=
      List.sum_nonneg (List.forall_mem_map.2 hnonneg)
    have hhigh := List.sum_le_card_nsmul _ 1 (List.forall_mem_map.2 hle)
    rw [List.length_map, nsmul_eq_mul, mul_one] at hhigh
    have hpos : (0 : Rat) < (ofPairs Rat pairs).length :=
      Nat.cast_pos.2 (List.length_pos_of_ne_nil hne)
    rw [total_eq hne]
    refine ⟨by positivity, ?_⟩
    rw [div_le_iff₀ hpos]
    linarith

/-- Where a comparison is not exact, the total lacks a tenth of its share. -/
theorem total_le_of_not_exact (h : ∃ d ∈ ofPairs Rat pairs, d.exact = false) :
    total (ofPairs Rat pairs) ≤ 100 - 10 / (ofPairs Rat pairs).length := by
  obtain ⟨d, hd, hexact⟩ := h
  have hlow : ∀ d ∈ ofPairs Rat pairs, d.exact = false → d.score ≤ 9 / 10 :=
    forall_mem_ofPairs fun predicted expected hexact => score_between_le_of_ne fun heq => by
      rw [(exact_between_iff predicted expected).2 heq] at hexact
      cases hexact
  exact total_le_of_score_le (forall_mem_ofPairs score_between_le_one) hd (hlow d hd hexact)

/-- The total is one hundred when there are comparisons and all of them are exact. -/
theorem total_eq_hundred_iff :
    total (ofPairs Rat pairs) = 100 ↔
      ofPairs Rat pairs ≠ [] ∧ ∀ d ∈ ofPairs Rat pairs, d.exact = true := by
  constructor
  · intro htotal
    have hne : ofPairs Rat pairs ≠ [] := by
      intro hnil
      rw [hnil, total] at htotal
      norm_num at htotal
    refine ⟨hne, fun d hd => ?_⟩
    by_contra hexact
    have hle := total_le_of_not_exact ⟨d, hd, Bool.eq_false_iff.2 hexact⟩
    have hpos : (0 : Rat) < (ofPairs Rat pairs).length :=
      Nat.cast_pos.2 (List.length_pos_of_ne_nil hne)
    have hshare : (0 : Rat) < 10 / (ofPairs Rat pairs).length := by positivity
    linarith
  · rintro ⟨hne, hexact⟩
    exact total_of_exact hne hexact

/-- Where one pair is replaced by another one, the totals are in the order of their scores. -/
theorem total_le_total_iff :
    total (ofPairs Rat (before ++ (predicted, expected) :: after)) ≤
        total (ofPairs Rat (before ++ (predicted', expected') :: after)) ↔
      (between predicted expected : Diff Rat).score ≤ (between predicted' expected').score := by
  have htotal : ∀ x : Grid × Grid, total (ofPairs Rat (before ++ x :: after)) =
      100 * (((ofPairs Rat before).map score).sum + ((between x.1 x.2).score +
        ((ofPairs Rat after).map score).sum)) / (before.length + (after.length + 1)) := by
    intro x
    rw [total_eq (by simp [ofPairs])]
    simp [ofPairs]
  have hpos : (0 : Rat) < before.length + (after.length + 1) := by positivity
  rw [htotal, htotal, div_le_div_iff_of_pos_right hpos]
  constructor
  · intro h
    linarith
  · intro h
    linarith

/-! ## Scores -/

/-- **Scores grade programs faithfully.**  The score and the severity of a comparison add up to one.
For predictions of the right shape, fewer cells that differ from the expected grid give a higher
score and a lower severity, and such a prediction always scores higher than one of a wrong shape.
The total of comparisons is between zero and one hundred; it is one hundred when there are
comparisons and all of them are exact, and a comparison that is not exact costs a tenth of its share
at least.  When one prediction is replaced by another one, the total does what the score does. -/
theorem scores_faithful :
    (∀ predicted expected : Grid,
      (between predicted expected : Diff Rat).score + (between predicted expected).severity = 1) ∧
    (∀ predicted predicted' expected : Grid,
      predicted.shape = expected.shape → predicted'.shape = expected.shape →
      predicted.mismatches expected < predicted'.mismatches expected →
      (between predicted' expected : Diff Rat).score < (between predicted expected).score ∧
        (between predicted expected : Diff Rat).severity < (between predicted' expected).severity) ∧
    (∀ predicted expected predicted' expected' : Grid,
      predicted.shape = expected.shape → predicted'.shape ≠ expected'.shape →
      (between predicted' expected' : Diff Rat).score < (between predicted expected).score) ∧
    (∀ pairs : List (Grid × Grid),
      let ds := ofPairs Rat pairs
      (0 ≤ total ds ∧ total ds ≤ 100) ∧
      (total ds = 100 ↔ ds ≠ [] ∧ ∀ d ∈ ds, d.exact = true) ∧
      ((∃ d ∈ ds, d.exact = false) → total ds ≤ 100 - 10 / ds.length)) ∧
    ∀ (before after : List (Grid × Grid)) (predicted predicted' expected : Grid),
      total (ofPairs Rat (before ++ (predicted, expected) :: after)) ≤
          total (ofPairs Rat (before ++ (predicted', expected) :: after)) ↔
        (between predicted expected : Diff Rat).score ≤ (between predicted' expected).score := by
  refine ⟨score_add_severity, fun predicted predicted' expected h h' hlt => ?_,
    fun predicted expected predicted' expected' h h' => ?_,
    fun pairs => ⟨total_mem pairs, total_eq_hundred_iff, total_le_of_not_exact⟩,
    fun before after predicted predicted' expected => total_le_total_iff⟩
  · have hpenalty := penalty_lt hlt (Grid.mismatches_le predicted' expected)
    rw [score_between h, score_between h', severity_between h, severity_between h']
    exact ⟨by linarith, hpenalty⟩
  · have hle := le_score_between h
    rw [(score_between_of_shape_ne h').1]
    linarith

/-- Of a row of three cells, a prediction with one wrong cell is better than one with three, which
is better than one of another shape; with a solved pair, one wrong cell leaves no more than
ninety-five. -/
theorem scores_faithful_row :
    let expected : Grid := ⟨1, 3, #[1, 2, 3], rfl⟩
    let near : Grid := ⟨1, 3, #[1, 2, 0], rfl⟩
    let far : Grid := ⟨1, 3, #[0, 0, 0], rfl⟩
    let other : Grid := ⟨3, 1, #[1, 2, 3], rfl⟩
    (near.mismatches expected = 1 ∧ far.mismatches expected = 3) ∧
    (between far expected : Diff Rat).score < (between near expected).score ∧
    (between other expected : Diff Rat).score < (between far expected).score ∧
    total (ofPairs Rat [(expected, expected), (near, expected)]) ≤ 95 ∧
    total (ofPairs Rat [(expected, expected), (far, expected)]) ≤
      total (ofPairs Rat [(expected, expected), (near, expected)]) := by
  intro expected near far other
  obtain ⟨-, hfewer, hshape, htotal, hreplace⟩ := scores_faithful
  have hlt := (hfewer near far expected rfl rfl (by decide)).1
  have hle := (htotal [(expected, expected), (near, expected)]).2.2
    ⟨between near expected, by simp [ofPairs], rfl⟩
  refine ⟨by decide, hlt, hshape far expected other expected rfl (by decide), ?_,
    (hreplace [(expected, expected)] [] far near expected).2 hlt.le⟩
  norm_num [ofPairs] at hle
  exact hle

end Diff

end GridRepair
