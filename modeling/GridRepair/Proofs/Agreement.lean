/-
# Scores and verdicts

A search goes by the score of a program, which takes the training predictions and nothing else; a
verdict takes reruns, tests and the cost besides.  The two agree (`evaluate_agrees`): a verdict has
the comparisons and the score that are computed without it, and what fails without it fails in the
same way with it.  Beyond that only tests can fail, or the cost of a program that was never run, or,
where the sides of examples are out of range, the check of the invariants.
-/
import GridRepair.Catalogue
import GridRepair.Proofs.Evaluation
import GridRepair.Proofs.Outcome

namespace GridRepair

namespace Program

variable {S : Type} [Scalar S] {reg : Registry} {p : Program} {strictness : Strictness} {t : Task}

/-! ## Comparisons and scores -/

/-- The comparisons of a verdict are those of its program. -/
theorem diffs_of_evaluate {v : Verdict S} (h : p.evaluate reg strictness t = .ok v) :
    p.diffs reg t = .ok v.diffs := by
  obtain ⟨outs, within, satisfied, cost, hpred, -, -, -, rfl⟩ := evaluate_eq_ok_iff.1 h
  rw [diffs, predictions_eq_ok_iff.2 hpred]
  rfl

/-- A program with comparisons has predictions. -/
theorem exists_predicts_of_diffs {ds : List (Diff S)} (h : p.diffs reg t = .ok ds) :
    ∃ outs, p.Predicts reg (t.examples.map Example.input) outs := by
  obtain ⟨outs, houts, -⟩ := bind_eq_ok.1 h
  exact ⟨outs, predictions_eq_ok_iff.1 houts⟩

/-- Comparing fails where predicting fails. -/
theorem diffs_eq_error_iff {fault : Fault} :
    (p.diffs reg t : Except Fault (List (Diff S))) = .error fault ↔
      p.predictions reg t.examples = .error fault := by
  rw [diffs]
  cases p.predictions reg t.examples <;> simp [pure, Except.pure]

/-- Scoring fails where comparing fails. -/
theorem score_eq_error_iff {fault : Fault} :
    (p.score reg t : Except Fault S) = .error fault ↔
      (p.diffs reg t : Except Fault (List (Diff S))) = .error fault := by
  rw [Program.score]
  cases (p.diffs reg t : Except Fault (List (Diff S))) <;> simp [pure, Except.pure]

/-! ## Faults of an evaluation -/

/-- An evaluation fails where comparing fails. -/
theorem evaluate_of_diffs_error {fault : Fault}
    (h : (p.diffs reg t : Except Fault (List (Diff S))) = .error fault) :
    (p.evaluate reg strictness t : Except Fault (Verdict S)) = .error fault := by
  rw [evaluate, diffs_eq_error_iff.1 h, error_bind]

/-- With comparisons at hand, an evaluation fails where the tests fail or, after them, the check of the
invariants or the cost. -/
theorem evaluate_eq_error_of_diffs {ds : List (Diff S)} {fault : Fault}
    (hdiffs : p.diffs reg t = .ok ds)
    (h : (p.evaluate reg strictness t : Except Fault (Verdict S)) = .error fault) :
    p.testsWithin reg strictness t = .error fault ∨
      (fault = .breach .ratio ∧ ¬ t.RatiosFit) ∨
      (∃ within, p.testsWithin reg strictness t = .ok within) ∧ p.cost reg = .error fault := by
  obtain ⟨outs, hpred⟩ := exists_predicts_of_diffs hdiffs
  rw [evaluate_of_predicts hpred, bind_eq_error] at h
  rcases h with htests | ⟨within, hwithin, h⟩
  · exact .inl htests
  rcases bind_eq_error.1 h with hchecks | ⟨satisfied, -, h⟩
  · exact .inr (.inl ⟨(Invariants.satisfied_eq_error hchecks).1,
      fun hfits => hfits.satisfied_ne_error hchecks⟩)
  rcases bind_eq_error.1 h with hcost | ⟨cost, -, hjudge⟩
  · exact .inr (.inr ⟨⟨within, hwithin⟩, hcost⟩)
  · cases hjudge

/-- A program whose cost fails, although its comparisons and tests do not, was never run. -/
theorem never_run_of_cost_error {ds : List (Diff S)} {fault : Fault}
    (hfits : p.totalCost reg ≤ maxCost) (hdiffs : p.diffs reg t = .ok ds)
    (htests : ∃ within, p.testsWithin reg strictness t = .ok within)
    (hcost : p.cost reg = .error fault) :
    t.examples = [] ∧ (strictness.runTests = true → t.test = []) := by
  -- any grid on which the program runs would give it a cost
  have hnever : ∀ g out, p.run reg g ≠ .ok out := by
    intro g out hrun
    rw [cost_of_eval hfits (run_eq_ok_iff.1 hrun)] at hcost
    cases hcost
  obtain ⟨outs, hpred⟩ := exists_predicts_of_diffs hdiffs
  constructor
  · by_contra hne
    obtain ⟨e, he⟩ := List.exists_mem_of_ne_nil _ hne
    obtain ⟨out, -, hrun⟩ := hpred.run_of_mem (List.mem_map_of_mem he)
    exact hnever _ _ hrun
  · intro hrunTests
    by_contra hne
    obtain ⟨q, hq⟩ := List.exists_mem_of_ne_nil _ hne
    obtain ⟨out, hrun⟩ := exists_testsWithin_iff.1 htests hrunTests q hq
    exact hnever _ _ hrun

/-- **Scores and verdicts agree, faults included.**  A verdict has the comparisons and the score that
are computed without it, and where these fail, the evaluation fails in the same way.  For a program
whose total cost is in range: when it has comparisons and the evaluation still fails, then either
tests are run and this is the fault of the first test input on which the program fails, or nothing
was run at all and the program calls a primitive that is not registered, unless the evaluation ends in
a breach because the sides of the examples are out of range; and a program that has a value on some
grid has its total cost. -/
theorem evaluate_agrees (reg : Registry) (strictness : Strictness) (p : Program) (t : Task) :
    (∀ v : Verdict S, p.evaluate reg strictness t = .ok v →
      p.diffs reg t = .ok v.diffs ∧ p.score reg t = .ok v.score) ∧
    (∀ fault, (p.diffs reg t : Except Fault (List (Diff S))) = .error fault ∨
        (p.score reg t : Except Fault S) = .error fault →
      (p.evaluate reg strictness t : Except Fault (Verdict S)) = .error fault) ∧
    (p.totalCost reg ≤ maxCost →
      (∀ (ds : List (Diff S)) (fault : Fault), p.diffs reg t = .ok ds →
        (p.evaluate reg strictness t : Except Fault (Verdict S)) = .error fault →
        (strictness.runTests = true ∧ p.FailsFirst reg t.testInputs fault) ∨
          ((t.examples = [] ∧ (strictness.runTests = true → t.test = [])) ∧
            ∃ name ∈ p.calls, reg.contains name = false ∧ fault = .unknownPrimitive name) ∨
          fault = .breach .ratio ∧ ¬ t.RatiosFit) ∧
      ∀ (g : Grid) (v : Value), p.eval reg g = .ok v → p.cost reg = .ok (p.totalCost reg)) := by
  refine ⟨fun v hv => ⟨diffs_of_evaluate hv, (score_of_evaluate hv).1⟩, ?_, fun hfits => ⟨?_, ?_⟩⟩
  · rintro fault (hdiffs | hscore)
    · exact evaluate_of_diffs_error hdiffs
    · exact evaluate_of_diffs_error (score_eq_error_iff.1 hscore)
  · intro ds fault hdiffs h
    rcases evaluate_eq_error_of_diffs hdiffs h with htests | hover | ⟨htests, hcost⟩
    · exact .inl (testsWithin_eq_error_iff.1 htests)
    · exact .inr (.inr hover)
    · exact .inr (.inl ⟨never_run_of_cost_error hfits hdiffs htests hcost,
        cost_eq_error hfits hcost⟩)
  · intro g v h
    exact cost_of_eval hfits h

/-- Doubling has comparisons for the tall task, fails on its test, and has a verdict when tests are not
run; a call that is not registered fails on every example, and fails by its cost where there is
nothing to run. -/
theorem evaluate_agrees_tall :
    (∃ ds : List (Diff Rat), (apply "scale" [.int 2]).diffs .standard .tall = .ok ds) ∧
      ((apply "scale" [.int 2]).evaluate .standard .standard .tall : Except Fault (Verdict Rat)) =
        .error .tooTall ∧
      (apply "scale" [.int 2]).FailsFirst .standard Task.tall.testInputs .tooTall ∧
      (∃ v : Verdict Rat, (apply "scale" [.int 2]).evaluate .standard ⟨1, true, false⟩ .tall = .ok v ∧
        v.cost = 2 ∧ (apply "scale" [.int 2]).score .standard .tall = .ok v.score) ∧
      ((call "sparkle" []).evaluate .standard .standard .tall : Except Fault (Verdict Rat)) =
        .error (.unknownPrimitive "sparkle") ∧
      ∃ name ∈ (call "sparkle" []).calls, Registry.standard.contains name = false ∧
        Fault.unknownPrimitive "sparkle" = .unknownPrimitive name := by
  obtain ⟨-, -, hfits⟩ :=
    evaluate_agrees (S := Rat) .standard .standard (apply "scale" [.int 2]) .tall
  obtain ⟨hverdict, -, -⟩ :=
    evaluate_agrees (S := Rat) .standard ⟨1, true, false⟩ (apply "scale" [.int 2]) .tall
  obtain ⟨-, hfails, -⟩ := evaluate_agrees (S := Rat) .standard .standard (call "sparkle" []) .tall
  obtain ⟨-, -, hidle⟩ :=
    evaluate_agrees (S := Rat) .standard .standard (call "sparkle" []) ⟨"nothing to run", [], []⟩
  obtain ⟨ds, hds, -⟩ : ∃ ds : List (Diff Rat),
      (apply "scale" [.int 2]).diffs .standard .tall = .ok ds ∧ ds.length = 1 :=
    exists_ok_of_map (by decide +kernel)
  have hfault : ((apply "scale" [.int 2]).evaluate .standard .standard .tall :
      Except Fault (Verdict Rat)) = .error .tooTall := eq_error_of_fault? (by decide +kernel)
  obtain ⟨v, hv, hcost⟩ : ∃ v : Verdict Rat,
      (apply "scale" [.int 2]).evaluate .standard ⟨1, true, false⟩ .tall = .ok v ∧ v.cost = 2 :=
    exists_ok_of_map (by decide +kernel)
  have hunknown : ((call "sparkle" []).diffs .standard .tall : Except Fault (List (Diff Rat))) =
      .error (.unknownPrimitive "sparkle") := eq_error_of_fault? (by decide +kernel)
  have hidle' : ((call "sparkle" []).evaluate .standard .standard ⟨"nothing to run", [], []⟩ :
      Except Fault (Verdict Rat)) = .error (.unknownPrimitive "sparkle") :=
    eq_error_of_fault? (by decide +kernel)
  refine ⟨⟨ds, hds⟩, hfault, ?_, ⟨v, hv, hcost, (hverdict v hv).2⟩, hfails _ (.inl hunknown), ?_⟩
  · -- there is an example, so the fault is that of the test
    rcases (hfits (by decide +kernel)).1 ds _ hds hfault with htests | ⟨⟨hnone, -⟩, -⟩ | ⟨hbreach, -⟩
    · exact htests.2
    · cases hnone
    · cases hbreach
  · rcases (hidle (by decide +kernel)).1 [] _ rfl hidle' with ⟨-, htests⟩ | ⟨-, hname⟩ | ⟨hbreach, -⟩
    · exact absurd htests not_failsFirst_nil
    · exact hname
    · cases hbreach

end Program

end GridRepair
