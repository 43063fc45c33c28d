/-
# Exact grades

With exact scores, a program that solves all examples has the score one hundred, and every example
it does not solve costs it at least a tenth of the share of an example (`score_le_of_unsolved`).  So
the best possible score stands alone: over at most `10 ^ 9` examples, every other score lies below
it by more than the tolerance (`score_gap`).
-/
import Mathlib.Algebra.Order.BigOperators.Group.List
import Mathlib.Algebra.Order.Field.Rat
import Mathlib.Tactic.FieldSimp
import Mathlib.Tactic.Positivity
import GridRepair.Proofs.Ascent
import GridRepair.Proofs.Certification
import GridRepair.Proofs.Severity

namespace GridRepair

/-! ## Exact numbers -/

namespace Scalar

/-- The best possible score is one hundred. -/
theorem maxScore_eq : (maxScore : Rat) = 100 := by
  decide +kernel

/-- The tolerance is a billionth. -/
theorem tolerance_eq : (tolerance : Rat) = 1 / 10 ^ 9 := by
  decide +kernel

/-- Summing from left to right gives the sum. -/
theorem sum_eq (xs : List Rat) : Scalar.sum xs = xs.sum := by
  have hzero : (0.0 : Rat) = 0 := by norm_num
  rw [List.sum_eq_foldl, ← hzero]
  rfl

end Scalar

/-! ## Totals of comparisons -/

namespace Diff

/-- The total of comparisons is their mean, out of one hundred. -/
theorem total_eq {ds : List (Diff Rat)} (hne : ds ≠ []) :
    total ds = 100 * (ds.map score).sum / ds.length := by
  rw [total, if_neg (by simpa using hne), Scalar.maxScore_eq, Scalar.sum_eq]
  rfl

/-- The total of exact comparisons is one hundred. -/
theorem total_of_exact {ds : List (Diff Rat)} (hne : ds ≠ [])
    (hexact : ∀ d ∈ ds, d.exact = true) : total ds = 100 := by
  have hones : ds.map score = List.replicate ds.length 1 :=
    List.eq_replicate_iff.2 ⟨List.length_map _, List.forall_mem_map.2 fun d hd =>
      score_of_exact (hexact d hd)⟩
  have hpos : (0 : Rat) < ds.length := by
    exact_mod_cast List.length_pos_of_ne_nil hne
  rw [total_eq hne, hones, List.sum_replicate, nsmul_eq_mul, mul_one]
  field_simp

/-- Where one comparison lacks a tenth, the total lacks a tenth of its share. -/
theorem total_le_of_score_le {ds : List (Diff Rat)} (hle : ∀ d ∈ ds, d.score ≤ 1)
    {d : Diff Rat} (hd : d ∈ ds) (hlow : d.score ≤ 9 / 10) :
    total ds ≤ 100 - 10 / ds.length := by
  obtain ⟨before, after, rfl⟩ := List.append_of_mem hd
  have hpos : (0 : Rat) < (before ++ d :: after).length := by
    exact_mod_cast List.length_pos_of_mem hd
  -- the comparisons before and after it have at most one each
  have hshare : ∀ es : List (Diff Rat), (∀ e ∈ es, e.score ≤ 1) →
      (es.map score).sum ≤ es.length := by
    intro es hes
    have hsum := List.sum_le_card_nsmul (es.map score) 1 (List.forall_mem_map.2 hes)
    rwa [List.length_map, nsmul_eq_mul, mul_one] at hsum
  have hbefore := hshare before fun e he => hle e (List.mem_append_left _ he)
  have hafter := hshare after fun e he =>
    hle e (List.mem_append_right _ (List.mem_cons_of_mem _ he))
  have hsum : ((before ++ d :: after).map score).sum ≤
      (before ++ d :: after).length - 1 / 10 := by
    rw [List.map_append, List.map_cons, List.sum_append, List.sum_cons, List.length_append,
      List.length_cons]
    push_cast
    linarith
  rw [total_eq (List.ne_nil_of_mem hd), div_le_iff₀ hpos, sub_mul,
    div_mul_cancel₀ _ (ne_of_gt hpos)]
  linarith

end Diff

/-! ## Scores of programs -/

namespace Program

variable {S : Type} [Scalar S] {reg : Registry} {p : Program} {t : Task}

/-- The comparisons of a program are those of its predictions with the outputs. -/
theorem mem_compare_iff {es : List Example} {outs : List Grid}
    (h : p.Predicts reg (es.map Example.input) outs) {d : Diff S} :
    d ∈ compare es outs ↔
      ∃ e ∈ es, ∃ out, p.run reg e.input = .ok out ∧ d = Diff.between out e.output := by
  induction es generalizing outs with
  | nil =>
    cases h
    simp [compare]
  | cons e es ih =>
    cases h with
    | @cons _ out _ outs hrun htail =>
      have hrest := ih htail
      rw [compare] at hrest ⊢
      rw [List.zipWith_cons_cons, List.mem_cons, hrest]
      constructor
      · rintro (rfl | ⟨e', he', hd⟩)
        · exact ⟨e, List.mem_cons_self, out, hrun, rfl⟩
        · exact ⟨e', List.mem_cons_of_mem _ he', hd⟩
      · rintro ⟨e', he', out', hrun', rfl⟩
        rcases List.mem_cons.1 he' with rfl | he'
        · rw [hrun, Except.ok.injEq] at hrun'
          exact Or.inl (by rw [hrun'])
        · exact Or.inr ⟨e', he', out', hrun', rfl⟩

/-- The program gives the output of every example. -/
def Solves (reg : Registry) (p : Program) (t : Task) : Prop :=
  ∀ e ∈ t.examples, p.run reg e.input = .ok e.output

/-- A program that does not solve all examples misses the output of one of them. -/
theorem not_solves_iff :
    ¬ p.Solves reg t ↔ ∃ e ∈ t.examples, p.run reg e.input ≠ .ok e.output := by
  simp only [Solves, not_forall, exists_prop]

/-- A program that solves all examples has the score one hundred. -/
theorem score_of_solves (hne : t.examples ≠ []) (h : p.Solves reg t) :
    p.score reg t = .ok (100 : Rat) := by
  have hpred : p.Predicts reg (t.examples.map Example.input) (t.examples.map Example.output) :=
    predicts_output_iff.2 h
  have hlength : (compare t.examples (t.examples.map Example.output) : List (Diff Rat)).length =
      t.examples.length := length_compare (List.length_map _)
  refine score_eq_ok_iff.2 ⟨_, hpred, Diff.total_of_exact ?_ fun d hd => ?_⟩
  · rw [← List.length_pos_iff, hlength]
    exact List.length_pos_of_ne_nil hne
  · obtain ⟨e, he, out, hrun, rfl⟩ := (mem_compare_iff hpred).1 hd
    rw [h e he, Except.ok.injEq] at hrun
    exact (Diff.exact_between_iff out e.output).2 hrun.symm

/-- An example that is not solved costs a program a tenth of its share. -/
theorem score_le_of_unsolved {score : Rat} (hscore : p.score reg t = .ok score) {e : Example}
    (he : e ∈ t.examples) (hunsolved : p.run reg e.input ≠ .ok e.output) :
    score ≤ 100 - 10 / t.examples.length := by
  obtain ⟨outs, hpred, rfl⟩ := score_eq_ok_iff.1 hscore
  obtain ⟨out, -, hrun⟩ := hpred.run_of_mem (List.mem_map_of_mem he)
  have hle : ∀ d ∈ (compare t.examples outs : List (Diff Rat)), d.score ≤ 1 := by
    intro d hd
    obtain ⟨e', -, out', -, rfl⟩ := (mem_compare_iff hpred).1 hd
    exact Diff.score_between_le_one out' e'.output
  have hne : out ≠ e.output := by
    rintro rfl
    exact hunsolved hrun
  have htotal := Diff.total_le_of_score_le hle ((mem_compare_iff hpred).2 ⟨e, he, out, hrun, rfl⟩)
    (Diff.score_between_le_of_ne hne)
  have hlength : outs.length = t.examples.length := by
    rw [← List.Forall₂.length_eq hpred, List.length_map]
  rwa [length_compare hlength] at htotal

/-- Over at most `10 ^ 9` examples, a program that does not solve all of them scores less than one
hundred by more than the tolerance. -/
theorem score_gap {score : Rat} (hscore : p.score reg t = .ok score)
    (hmany : t.examples.length ≤ 10 ^ 9) (hunsolved : ¬ p.Solves reg t) :
    score + Scalar.tolerance < 100 := by
  obtain ⟨e, he, hne⟩ := not_solves_iff.1 hunsolved
  have hle := score_le_of_unsolved hscore he hne
  have hpos : (0 : Rat) < t.examples.length := by
    exact_mod_cast List.length_pos_of_mem he
  have hmany' : (t.examples.length : Rat) ≤ 10 ^ 9 := by
    exact_mod_cast hmany
  have hshare : (10 : Rat) / 10 ^ 9 ≤ 10 / t.examples.length :=
    div_le_div_of_nonneg_left (by norm_num) hpos hmany'
  rw [Scalar.tolerance_eq]
  linarith

end Program

end GridRepair
