/-
# What certification stands for

A certified program solves all examples of a task, of which there is one, and shows no color on a
test input that the training outputs lack, as far as that is asked for: `Certifiable` says so in
terms of runs, and `certified_iff_certifiable` that a verdict certifies exactly these programs.

The reruns and the palette of the training predictions play no part in it.  Running a program
again reproduces its predictions, and the predictions of a program that solves all examples are
training outputs themselves.
-/
import GridRepair.Catalogue
import GridRepair.Proofs.Comparison
import GridRepair.Proofs.Examples
import GridRepair.Proofs.Prediction

namespace GridRepair

/-- What certification stands for. -/
structure Certifiable (reg : Registry) (strictness : Strictness) (p : Program) (t : Task) :
    Prop where
  /-- there is an example -/
  labelled : ∃ q ∈ t.train, ∃ out, q.output? = some out
  /-- all examples are solved -/
  solved : ∀ q ∈ t.train, ∀ out, q.output? = some out → p.run reg q.input = .ok out
  /-- predictions on tests have only colors of training outputs, if that is asked for -/
  familiar : strictness.boundPalette = true → strictness.runTests = true →
    ∀ q ∈ t.test, ∃ out, p.run reg q.input = .ok out ∧
      ∀ c ∈ out.cells, ∃ q' ∈ t.train, ∃ out', q'.output? = some out' ∧ c ∈ out'.cells

/-- What certification stands for depends on whether the palette binds on tests, and on nothing
else about the strictness. -/
theorem Certifiable.of_strictness {reg : Registry} {p : Program} {t : Task}
    {strictness strictness' : Strictness}
    (hsame : (strictness'.boundPalette && strictness'.runTests) =
      (strictness.boundPalette && strictness.runTests))
    (h : Certifiable reg strictness p t) : Certifiable reg strictness' p t := by
  refine ⟨h.labelled, h.solved, fun hbound hrun => ?_⟩
  rw [hbound, hrun, Bool.and_self, eq_comm, Bool.and_eq_true] at hsame
  exact h.familiar hsame.1 hsame.2

namespace Program

variable {S : Type} [Scalar S] {reg : Registry} {p : Program} {strictness : Strictness}
  {t : Task}

/-! ## Solved examples -/

/-- All comparisons are exact when the predictions are the outputs. -/
theorem all_exact_compare_iff {es : List Example} {outs : List Grid}
    (h : outs.length = es.length) :
    ((compare es outs : List (Diff S)).all fun d => d.exact) = true ↔
      outs = es.map Example.output := by
  induction es generalizing outs with
  | nil =>
    rw [List.length_nil, List.length_eq_zero_iff] at h
    subst h
    simp [compare]
  | cons e es ih =>
    cases outs with
    | nil => cases h
    | cons out outs =>
      have htail := ih (by simpa using h)
      rw [compare] at htail ⊢
      rw [List.zipWith_cons_cons, List.all_cons, Bool.and_eq_true, htail,
        Diff.exact_between_iff, List.map_cons, List.cons.injEq]

/-- The comparisons are as many as the examples. -/
theorem length_compare {es : List Example} {outs : List Grid} (h : outs.length = es.length) :
    (compare es outs : List (Diff S)).length = es.length := by
  rw [compare, List.length_zipWith, h, Nat.min_self]

/-- The outputs are the predictions when every example is solved. -/
theorem predicts_output_iff {es : List Example} :
    p.Predicts reg (es.map Example.input) (es.map Example.output) ↔
      ∀ e ∈ es, p.run reg e.input = .ok e.output := by
  rw [Predicts, List.forall₂_map_left_iff, List.forall₂_map_right_iff, List.forall₂_same]

/-- Given its predictions, a program solves all examples, of which there is one, when there is a
comparison and all comparisons are exact. -/
theorem exactAll_judge_iff {outs : List Grid} {deterministic within : Bool}
    {satisfied : List Invariant} {cost : Nat}
    (h : p.Predicts reg (t.examples.map Example.input) outs) :
    (p.judge strictness t outs deterministic within satisfied cost : Verdict S).exactAll = true ↔
      t.examples ≠ [] ∧ outs = t.examples.map Example.output := by
  have hlen : outs.length = t.examples.length := by
    rw [← List.Forall₂.length_eq h, List.length_map]
  simp only [judge, Bool.and_eq_true, Bool.not_eq_true', List.isEmpty_eq_false_iff]
  refine and_congr ?_ (all_exact_compare_iff hlen)
  rw [ne_eq, ne_eq, ← List.length_eq_zero_iff, length_compare hlen, List.length_eq_zero_iff]

/-! ## Certified programs -/

/-- The tests stay within the palette when every test prediction has only colors of training
outputs; where tests are not run, there is nothing to show. -/
theorem testsWithin_eq_true_iff {within : Bool}
    (h : p.testsWithin reg strictness t = .ok within) :
    within = true ↔ (strictness.runTests = true →
      ∀ q ∈ t.test, ∃ out, p.run reg q.input = .ok out ∧
        ∀ c ∈ out.cells, ∃ q' ∈ t.train, ∃ out', q'.output? = some out' ∧ c ∈ out'.cells) := by
  rw [testsWithin] at h
  by_cases hrun : strictness.runTests = true
  · rw [if_pos hrun, staysWithin_eq_ok_iff] at h
    obtain ⟨outs, houts, rfl⟩ := h
    rw [List.all_eq_true]
    constructor
    · intro hall _ q hq
      obtain ⟨out, hout, hpred⟩ := houts.run_of_mem (List.mem_map_of_mem hq)
      exact ⟨out, hpred, Invariants.subset_outputPalette_iff.1 (hall out hout)⟩
    · intro hfamiliar out hout
      obtain ⟨input, hinput, hpred⟩ := houts.mem_of_run hout
      obtain ⟨q, hq, rfl⟩ := List.mem_map.1 hinput
      obtain ⟨out', hpred', hcolors⟩ := hfamiliar hrun q hq
      rw [hpred, Except.ok.injEq] at hpred'
      subst hpred'
      exact Invariants.subset_outputPalette_iff.2 hcolors
  · rw [if_neg hrun, Except.ok.injEq] at h
    simp [← h, hrun]

/-- Training outputs stay within their own palette. -/
theorem outputs_within_palette :
    ((t.examples.map Example.output).all fun out =>
      out.palette.subset (Invariants.ofTask t).outputPalette) = true := by
  rw [List.all_eq_true]
  intro out hout
  obtain ⟨e, he, rfl⟩ := List.mem_map.1 hout
  rw [Palette.subset_iff]
  intro c hc
  exact Invariants.mem_outputPalette.2 ⟨e, he, Grid.mem_palette.1 hc⟩

/-- A program that solves all examples is certified when its test predictions stay within the
palette or the palette does not bind. -/
theorem certified_judge_iff {outs : List Grid} {within : Bool} {satisfied : List Invariant}
    {cost : Nat} (h : p.Predicts reg (t.examples.map Example.input) outs) :
    (p.judge strictness t outs (!outs.isEmpty) within satisfied cost : Verdict S).certified = true ↔
      (t.examples ≠ [] ∧ outs = t.examples.map Example.output) ∧
        (strictness.boundPalette = true → within = true) := by
  generalize hv : (p.judge strictness t outs (!outs.isEmpty) within satisfied cost : Verdict S) = v
  have hexact : v.exactAll = true ↔ t.examples ≠ [] ∧ outs = t.examples.map Example.output :=
    hv ▸ exactAll_judge_iff h
  have hcert : v.certified = (v.exactAll && !outs.isEmpty &&
      ((outs.all fun out => out.palette.subset (Invariants.ofTask t).outputPalette) && within ||
        !strictness.boundPalette)) := by
    rw [← hv]
    rfl
  rw [hcert, Bool.and_eq_true, Bool.and_eq_true, hexact, and_assoc]
  -- an exact program has an example and predicts training outputs: the reruns and the palette of
  -- the training predictions drop out
  refine and_congr_right fun ⟨hne, houts⟩ => ?_
  have hnonempty : (!outs.isEmpty) = true := by
    rw [houts, Bool.not_eq_true', List.isEmpty_eq_false_iff, ne_eq, List.map_eq_nil_iff]
    exact hne
  rw [hnonempty, houts, outputs_within_palette]
  cases strictness.boundPalette <;> simp

/-- There is an example when a training pair has an output. -/
theorem examples_ne_nil_iff : t.examples ≠ [] ↔ ∃ q ∈ t.train, ∃ out, q.output? = some out := by
  constructor
  · intro hne
    obtain ⟨e, he⟩ := List.exists_mem_of_ne_nil _ hne
    obtain ⟨q, hq, -, hout⟩ := Task.mem_examples.1 he
    exact ⟨q, hq, e.output, hout⟩
  · rintro ⟨q, hq, out, hout⟩
    exact List.ne_nil_of_mem (Task.mem_examples.2 ⟨q, hq, rfl, hout⟩ : ⟨q.input, out⟩ ∈ t.examples)

/-- The predictions are the outputs when every training pair with an output is solved. -/
theorem eq_outputs_iff {outs : List Grid}
    (h : p.Predicts reg (t.examples.map Example.input) outs) :
    outs = t.examples.map Example.output ↔
      ∀ q ∈ t.train, ∀ out, q.output? = some out → p.run reg q.input = .ok out := by
  have hself : outs = t.examples.map Example.output ↔
      ∀ e ∈ t.examples, p.run reg e.input = .ok e.output := by
    rw [← predicts_output_iff]
    constructor
    · rintro rfl
      exact h
    · exact h.unique
  rw [hself]
  constructor
  · intro hrun q hq out hout
    exact hrun ⟨q.input, out⟩ (Task.mem_examples.2 ⟨q, hq, rfl, hout⟩)
  · intro hrun e he
    obtain ⟨q, hq, hin, hout⟩ := Task.mem_examples.1 he
    rw [← hin]
    exact hrun q hq e.output hout

/-- A verdict certifies the programs that certification stands for. -/
theorem certified_iff {v : Verdict S} (h : p.evaluate reg strictness t = .ok v) :
    v.certified = true ↔ Certifiable reg strictness p t := by
  obtain ⟨outs, within, satisfied, cost, hpred, hwithin, -, -, rfl⟩ := evaluate_eq_ok_iff.1 h
  rw [certified_judge_iff hpred, examples_ne_nil_iff, eq_outputs_iff hpred,
    testsWithin_eq_true_iff hwithin]
  constructor
  · rintro ⟨⟨hlabelled, hsolved⟩, hfamiliar⟩
    exact ⟨hlabelled, hsolved, hfamiliar⟩
  · intro hc
    exact ⟨⟨hc.labelled, hc.solved⟩, hc.familiar⟩

/-- **Certification is sound and complete.**  Where an evaluation gives a verdict, it certifies
exactly the programs that certification stands for; so two evaluations agree when they bind the
palette on tests alike, whatever the number of reruns and whether or not the palette binds the
training predictions. -/
theorem certified_iff_certifiable {v : Verdict S}
    (h : p.evaluate reg strictness t = .ok v) :
    (v.certified = true ↔ Certifiable reg strictness p t) ∧
      ∀ (strictness' : Strictness) (v' : Verdict S), p.evaluate reg strictness' t = .ok v' →
        (strictness'.boundPalette && strictness'.runTests) =
          (strictness.boundPalette && strictness.runTests) →
        v'.certified = v.certified := by
  refine ⟨certified_iff h, fun strictness' v' h' hsame => ?_⟩
  rw [Bool.eq_iff_iff, certified_iff h, certified_iff h']
  exact ⟨Certifiable.of_strictness hsame.symm, Certifiable.of_strictness hsame⟩

/-- The quarter turn is certified for its task, also after more reruns. -/
theorem certified_quarterTurn :
    ∃ v v' : Verdict Rat,
      (apply "rotate90" [.int 1]).evaluate .standard ⟨1, true, true⟩ .quarterTurn = .ok v ∧
      (apply "rotate90" [.int 1]).evaluate .standard ⟨5, true, true⟩ .quarterTurn = .ok v' ∧
      v.certified = true ∧ v'.certified = true ∧
      Certifiable .standard ⟨1, true, true⟩ (apply "rotate90" [.int 1]) .quarterTurn := by
  obtain ⟨v, hv, hcert⟩ : ∃ v : Verdict Rat,
      (apply "rotate90" [.int 1]).evaluate .standard ⟨1, true, true⟩ .quarterTurn = .ok v ∧
        v.certified = true := exists_ok_of_map (by decide +kernel)
  obtain ⟨v', hv', -⟩ : ∃ v' : Verdict Rat,
      (apply "rotate90" [.int 1]).evaluate .standard ⟨5, true, true⟩ .quarterTurn = .ok v' ∧
        v'.deterministic = true := exists_ok_of_map (by decide +kernel)
  obtain ⟨hiff, hsame⟩ := certified_iff_certifiable hv
  exact ⟨v, v', hv, hv', hcert, (hsame _ v' hv' rfl).trans hcert, hiff.1 hcert⟩

end Program

end GridRepair
