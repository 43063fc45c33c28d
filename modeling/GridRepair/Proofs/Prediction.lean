/-
# Predictions

Running a program depends on the program and the grid alone.  So a list of inputs has at most one
list of predictions (`Predicts.unique`), and running the program again reproduces it
(`reproduces_of_predicts`).  What an evaluation does is then described by its predictions:

* `evaluate_eq_ok_iff` : which findings a verdict is made of;
* `evaluate_of_score` : for a program that has a score and a cost, only the tests can fail and, out
  of range, the check of the invariants;
* `testsWithin_eq_error_iff` : tests fail with the fault of the first input the program fails on.
-/
import Mathlib.Data.List.Forall2
import GridRepair.Verdict
import GridRepair.Proofs.Checks

namespace GridRepair

namespace Program

variable {reg : Registry} {p : Program}

/-- The program gives these outputs on these inputs, one by one. -/
def Predicts (reg : Registry) (p : Program) (inputs outs : List Grid) : Prop :=
  List.Forall₂ (fun input out => p.run reg input = .ok out) inputs outs

/-- There is at most one list of predictions. -/
theorem Predicts.unique {inputs outs outs' : List Grid} (h : p.Predicts reg inputs outs)
    (h' : p.Predicts reg inputs outs') : outs = outs' := by
  induction h generalizing outs' with
  | nil =>
    cases h'
    rfl
  | cons hrun _ ih =>
    cases h' with
    | cons hrun' htail =>
      rw [hrun, Except.ok.injEq] at hrun'
      rw [hrun', ih htail]

/-- Every input has its prediction. -/
theorem Predicts.run_of_mem {inputs outs : List Grid} (h : p.Predicts reg inputs outs)
    {input : Grid} (hmem : input ∈ inputs) : ∃ out ∈ outs, p.run reg input = .ok out := by
  induction h with
  | nil => cases hmem
  | cons hrun _ ih =>
    rcases List.mem_cons.1 hmem with rfl | hmem
    · exact ⟨_, List.mem_cons_self, hrun⟩
    · obtain ⟨out, hout, hrun⟩ := ih hmem
      exact ⟨out, List.mem_cons_of_mem _ hout, hrun⟩

/-- Every prediction belongs to an input. -/
theorem Predicts.mem_of_run {inputs outs : List Grid} (h : p.Predicts reg inputs outs)
    {out : Grid} (hmem : out ∈ outs) : ∃ input ∈ inputs, p.run reg input = .ok out := by
  induction h with
  | nil => cases hmem
  | cons hrun _ ih =>
    rcases List.mem_cons.1 hmem with rfl | hmem
    · exact ⟨_, List.mem_cons_self, hrun⟩
    · obtain ⟨input, hinput, hrun⟩ := ih hmem
      exact ⟨input, List.mem_cons_of_mem _ hinput, hrun⟩

/-- Inputs have predictions when the program runs on each of them. -/
theorem exists_predicts_iff {inputs : List Grid} :
    (∃ outs, p.Predicts reg inputs outs) ↔
      ∀ input ∈ inputs, ∃ out, p.run reg input = .ok out := by
  constructor
  · rintro ⟨outs, h⟩ input hmem
    obtain ⟨out, -, hrun⟩ := h.run_of_mem hmem
    exact ⟨out, hrun⟩
  · intro h
    induction inputs with
    | nil => exact ⟨[], List.Forall₂.nil⟩
    | cons input inputs ih =>
      obtain ⟨out, hrun⟩ := h input List.mem_cons_self
      obtain ⟨outs, houts⟩ := ih fun i hi => h i (List.mem_cons_of_mem _ hi)
      exact ⟨out :: outs, List.Forall₂.cons hrun houts⟩

/-- The program fails with this fault on one of the inputs, and runs on all before it. -/
def FailsFirst (reg : Registry) (p : Program) (inputs : List Grid) (fault : Fault) : Prop :=
  ∃ before input after, inputs = before ++ input :: after ∧
    (∀ i ∈ before, ∃ out, p.run reg i = .ok out) ∧ p.run reg input = .error fault

/-- There is no first failure without inputs. -/
theorem not_failsFirst_nil {fault : Fault} : ¬ p.FailsFirst reg [] fault := by
  rintro ⟨before, input, after, hsplit, -⟩
  cases before <;> cases hsplit

/-- The first failure is on the first input, or else on a later one. -/
theorem failsFirst_cons_iff {input : Grid} {inputs : List Grid} {fault : Fault} :
    p.FailsFirst reg (input :: inputs) fault ↔
      p.run reg input = .error fault ∨
        (∃ out, p.run reg input = .ok out) ∧ p.FailsFirst reg inputs fault := by
  constructor
  · rintro ⟨before, i, after, hsplit, hbefore, hfail⟩
    cases before with
    | nil =>
      rw [List.nil_append, List.cons.injEq] at hsplit
      exact Or.inl (hsplit.1 ▸ hfail)
    | cons b before =>
      rw [List.cons_append, List.cons.injEq] at hsplit
      obtain ⟨rfl, rfl⟩ := hsplit
      rw [List.forall_mem_cons] at hbefore
      exact Or.inr ⟨hbefore.1, before, i, after, rfl, hbefore.2, hfail⟩
  · rintro (hfail | ⟨hrun, before, i, after, rfl, hbefore, hfail⟩)
    · exact ⟨[], input, inputs, rfl, by simp, hfail⟩
    · exact ⟨input :: before, i, after, rfl, List.forall_mem_cons.2 ⟨hrun, hbefore⟩, hfail⟩

/-! ## Runs over lists -/

/-- The predictions for examples are the predictions on their inputs. -/
theorem predictions_eq_ok_iff {es : List Example} {outs : List Grid} :
    p.predictions reg es = .ok outs ↔ p.Predicts reg (es.map Example.input) outs := by
  induction es generalizing outs with
  | nil =>
    rw [predictions, List.map_nil, Except.ok.injEq]
    constructor
    · rintro rfl
      exact List.Forall₂.nil
    · intro h
      cases h
      rfl
  | cons e es ih =>
    simp only [predictions, bind_eq_ok, pure_eq_ok]
    constructor
    · rintro ⟨out, hrun, rest, hrest, rfl⟩
      exact List.Forall₂.cons hrun (ih.1 hrest)
    · intro h
      cases h with
      | cons hrun htail => exact ⟨_, hrun, _, ih.2 htail, rfl⟩

/-- Staying within a palette takes a prediction on every input, and says whether all of them have
only its colors. -/
theorem staysWithin_eq_ok_iff {colors : Palette} {inputs : List Grid} {b : Bool} :
    p.staysWithin reg colors inputs = .ok b ↔
      ∃ outs, p.Predicts reg inputs outs ∧ (outs.all fun out => out.palette.subset colors) = b := by
  induction inputs generalizing b with
  | nil =>
    rw [staysWithin, Except.ok.injEq]
    constructor
    · rintro rfl
      exact ⟨[], List.Forall₂.nil, rfl⟩
    · rintro ⟨outs, houts, rfl⟩
      cases houts
      rfl
  | cons input inputs ih =>
    simp only [staysWithin, bind_eq_ok, pure_eq_ok]
    constructor
    · rintro ⟨out, hrun, rest, hrest, rfl⟩
      obtain ⟨outs, houts, rfl⟩ := ih.1 hrest
      exact ⟨out :: outs, List.Forall₂.cons hrun houts, List.all_cons⟩
    · rintro ⟨outs, houts, rfl⟩
      cases houts with
      | cons hrun htail => exact ⟨_, hrun, _, ih.2 ⟨_, htail, rfl⟩, rfl⟩

/-- Staying within a palette fails with the first failure of the program. -/
theorem staysWithin_eq_error_iff {colors : Palette} {inputs : List Grid} {fault : Fault} :
    p.staysWithin reg colors inputs = .error fault ↔ p.FailsFirst reg inputs fault := by
  induction inputs with
  | nil =>
    refine iff_of_false ?_ not_failsFirst_nil
    intro h
    cases h
  | cons input inputs ih =>
    rw [failsFirst_cons_iff, staysWithin]
    cases hrun : p.run reg input with
    | error other => simp
    | ok out =>
      rw [ok_bind, bind_eq_error, ih]
      simp [pure, Except.pure]

/-- Running a program again on an input gives the same grid. -/
theorem repeats_of_run {input out : Grid} (h : p.run reg input = .ok out) (n : Nat) :
    p.repeats reg input out n = .ok true := by
  induction n with
  | zero => rfl
  | succ n ih => rw [repeats, h, ok_bind, if_pos rfl, ih]

/-- Running a program again on all examples gives the same predictions. -/
theorem reproduces_of_predicts {es : List Example} {outs : List Grid}
    (h : p.Predicts reg (es.map Example.input) outs) (n : Nat) :
    p.reproduces reg n es outs = .ok true := by
  induction es generalizing outs with
  | nil =>
    cases h
    rfl
  | cons e es ih =>
    rw [List.map_cons] at h
    cases h with
    | cons hrun htail => rw [reproduces, repeats_of_run hrun, ok_bind, if_pos rfl, ih htail]

/-! ## Evaluations -/

variable {S : Type} [Scalar S] {strictness : Strictness} {t : Task}

/-- With the predictions for the examples at hand, an evaluation runs the tests, adds the cost and
judges; the program counts as deterministic when there is an example. -/
theorem evaluate_of_predicts {outs : List Grid}
    (h : p.Predicts reg (t.examples.map Example.input) outs) :
    (p.evaluate reg strictness t : Except Fault (Verdict S)) = (do
      let within ← p.testsWithin reg strictness t
      let satisfied ← (Invariants.ofTask t).satisfied (t.examples.zip outs)
      let cost ← p.cost reg
      pure (p.judge strictness t outs (!outs.isEmpty) within satisfied cost)) := by
  rw [evaluate, predictions_eq_ok_iff.2 h, ok_bind]
  -- without predictions nothing is run again, and otherwise the reruns find nothing new
  cases outs with
  | nil => rfl
  | cons out outs => rw [reproduces_of_predicts h]; rfl

/-- The findings that a verdict is made of. -/
theorem evaluate_eq_ok_iff {v : Verdict S} :
    p.evaluate reg strictness t = .ok v ↔
      ∃ outs within satisfied cost, p.Predicts reg (t.examples.map Example.input) outs ∧
        p.testsWithin reg strictness t = .ok within ∧
        (Invariants.ofTask t).satisfied (t.examples.zip outs) = .ok satisfied ∧
        p.cost reg = .ok cost ∧
        p.judge strictness t outs (!outs.isEmpty) within satisfied cost = v := by
  constructor
  · intro h
    obtain ⟨outs, houts, -⟩ := bind_eq_ok.1 h
    have hpred := predictions_eq_ok_iff.1 houts
    rw [evaluate_of_predicts hpred] at h
    obtain ⟨within, hwithin, h⟩ := bind_eq_ok.1 h
    obtain ⟨satisfied, hsatisfied, h⟩ := bind_eq_ok.1 h
    obtain ⟨cost, hcost, h⟩ := bind_eq_ok.1 h
    exact ⟨outs, within, satisfied, cost, hpred, hwithin, hsatisfied, hcost, pure_eq_ok.1 h⟩
  · rintro ⟨outs, within, satisfied, cost, hpred, hwithin, hsatisfied, hcost, rfl⟩
    rw [evaluate_of_predicts hpred, hwithin, ok_bind, hsatisfied, ok_bind, hcost, ok_bind]
    rfl

/-! ## Scored programs -/

/-- The score of a program is the total of its comparisons. -/
theorem score_eq_ok_iff {score : S} :
    p.score reg t = .ok score ↔
      ∃ outs, p.Predicts reg (t.examples.map Example.input) outs ∧
        Diff.total (compare t.examples outs : List (Diff S)) = score := by
  simp only [Program.score, diffs, bind_eq_ok, pure_eq_ok, predictions_eq_ok_iff]
  constructor
  · rintro ⟨ds, ⟨outs, houts, rfl⟩, rfl⟩
    exact ⟨outs, houts, rfl⟩
  · rintro ⟨outs, houts, rfl⟩
    exact ⟨_, ⟨outs, houts, rfl⟩, rfl⟩

/-- A program with a verdict has the score and the cost that the verdict says. -/
theorem score_of_evaluate {v : Verdict S} (h : p.evaluate reg strictness t = .ok v) :
    p.score reg t = .ok v.score ∧ p.cost reg = .ok v.cost := by
  obtain ⟨outs, within, satisfied, cost, hpred, -, -, hcost, rfl⟩ := evaluate_eq_ok_iff.1 h
  exact ⟨score_eq_ok_iff.2 ⟨outs, hpred, rfl⟩, hcost⟩

/-- A program with a score and a cost gets a verdict, unless its tests fail or, after them, the check
of the invariants. -/
theorem evaluate_of_score (strictness : Strictness) {score : S} {cost : Nat}
    (hscore : p.score reg t = .ok score) (hcost : p.cost reg = .ok cost) :
    ∃ outs, p.Predicts reg (t.examples.map Example.input) outs ∧
      (p.evaluate reg strictness t : Except Fault (Verdict S)) = (do
        let within ← p.testsWithin reg strictness t
        let satisfied ← (Invariants.ofTask t).satisfied (t.examples.zip outs)
        pure (p.judge strictness t outs (!outs.isEmpty) within satisfied cost)) := by
  obtain ⟨outs, hpred, rfl⟩ := score_eq_ok_iff.1 hscore
  refine ⟨outs, hpred, ?_⟩
  rw [evaluate_of_predicts hpred, hcost]
  rfl

/-- Where a program with a score and a cost has no verdict, its tests fail or, after them, the check of
the invariants is out of range. -/
theorem evaluate_eq_error_iff_of_score {score : S} {cost : Nat} {fault : Fault}
    (hscore : p.score reg t = .ok score) (hcost : p.cost reg = .ok cost) :
    (p.evaluate reg strictness t : Except Fault (Verdict S)) = .error fault ↔
      p.testsWithin reg strictness t = .error fault ∨
        (∃ within, p.testsWithin reg strictness t = .ok within) ∧ fault = .breach .ratio ∧
          ¬ t.RatiosFit ∧ (p.evaluate reg strictness t : Except Fault (Verdict S)) = .error fault := by
  obtain ⟨outs, -, heval⟩ := evaluate_of_score strictness hscore hcost
  constructor
  · intro h
    have hfault := h
    rw [heval] at hfault
    rcases bind_eq_error.1 hfault with htests | ⟨within, hwithin, hfault⟩
    · exact .inl htests
    rcases bind_eq_error.1 hfault with hchecks | ⟨satisfied, -, hfault⟩
    · exact .inr ⟨⟨within, hwithin⟩, (Invariants.satisfied_eq_error hchecks).1,
        fun hfits => hfits.satisfied_ne_error hchecks, h⟩
    · cases hfault
  · rintro (htests | ⟨-, -, -, h⟩)
    · rw [heval, htests]
      rfl
    · exact h

/-- Tests that are run fail with the first failure on a test input, and nothing else fails. -/
theorem testsWithin_eq_error_iff {fault : Fault} :
    p.testsWithin reg strictness t = .error fault ↔
      strictness.runTests = true ∧ p.FailsFirst reg t.testInputs fault := by
  rw [testsWithin]
  by_cases hrun : strictness.runTests = true
  · rw [if_pos hrun, staysWithin_eq_error_iff, and_iff_right hrun]
  · rw [if_neg hrun]
    exact iff_of_false (by simp) fun h => hrun h.1

/-- Tests do not fail when the program runs on all test inputs, or they are not run. -/
theorem exists_testsWithin_iff :
    (∃ within, p.testsWithin reg strictness t = .ok within) ↔
      (strictness.runTests = true → ∀ q ∈ t.test, ∃ out, p.run reg q.input = .ok out) := by
  rw [testsWithin]
  by_cases hrun : strictness.runTests = true
  · have hinputs : (∀ q ∈ t.test, ∃ out, p.run reg q.input = .ok out) ↔
        ∀ input ∈ t.testInputs, ∃ out, p.run reg input = .ok out := by
      rw [Task.testInputs, List.forall_mem_map]
    rw [if_pos hrun]
    constructor
    · rintro ⟨within, h⟩ _
      obtain ⟨outs, houts, -⟩ := staysWithin_eq_ok_iff.1 h
      exact hinputs.2 (exists_predicts_iff.1 ⟨outs, houts⟩)
    · intro h
      obtain ⟨outs, houts⟩ := exists_predicts_iff.2 (hinputs.1 (h hrun))
      exact ⟨_, staysWithin_eq_ok_iff.2 ⟨outs, houts, rfl⟩⟩
  · rw [if_neg hrun]
    exact iff_of_true ⟨true, rfl⟩ fun h => absurd h hrun

end Program

end GridRepair
