/-
# What a search does not see

A search reads its task through the scorer and through the ratio of the examples, which may suggest
a step to insert (`Search.refine_congr_task`): settings that offer the same candidates and give every
program the same score lead to the same climb (`Setting.Alike.climb_eq`).  Scores and hints of
verdicts come from the examples.  So tests, training pairs without output and the name of a task make
no difference to a search, neither by itself nor inside a repair (`search_ignores_tests`).
-/
import GridRepair.Proofs.Agreement
import GridRepair.Proofs.Course

namespace GridRepair

namespace Search

variable {S : Type}

/-! ## Settings that make no difference -/

/-- The settings offer the same candidates and give every program the same score. -/
structure Setting.Alike (s s' : Setting S) : Prop where
  registry_eq : s'.registry = s.registry
  order_eq : s'.order = s.order
  steps_eq : s'.steps = s.steps
  maxCandidates_eq : s'.maxCandidates = s.maxCandidates
  score_eq : ∀ q, s'.scorer q s'.task = s.scorer q s.task

namespace Setting.Alike

variable {s s' : Setting S}

/-- The candidates of a round are the same. -/
theorem batch_eq (h : s.Alike s') (x : Position S) : batch s' x = batch s x := by
  rw [batch, batch, h.registry_eq, h.order_eq, h.steps_eq, h.maxCandidates_eq]

/-- The scored candidates of a list are the same. -/
theorem scored_eq (h : s.Alike s') (cs : List Candidate) : scored s' cs = scored s cs := by
  rw [scored, scored, h.registry_eq]
  exact assessFrom_congr fun c _ => h.score_eq c.program

variable [Scalar S]

/-- A round goes the same way. -/
theorem round_eq (h : s.Alike s') (x : Position S) : round s' x = round s x := by
  rw [round, round, h.batch_eq, h.scored_eq]

/-- A climb goes the same way. -/
theorem climb_eq (h : s.Alike s') (n : Nat) (x : Position S) : climb s' n x = climb s n x := by
  induction n generalizing x with
  | zero => rfl
  | succ n ih =>
    rw [climb, climb, h.round_eq]
    simp only [ih]

end Setting.Alike

variable [Scalar S] {reg : Registry} {scorer : Scorer S} {t t' : Task}

/-- A search reads its task through the scorer and the ratio of the examples only. -/
theorem refine_congr_task (hratio : (Invariants.ofTask t').ratio? = (Invariants.ofTask t).ratio?)
    (hscore : ∀ q, scorer q t' = scorer q t) (effort : Effort) (p : Program) (hints : List Hint) :
    refine reg scorer effort p t' hints = refine reg scorer effort p t hints := by
  have hassess : assess reg scorer t' 0 p = assess reg scorer t 0 p := by
    rw [assess, assess, hscore]
  have halike : (setting reg scorer effort t hints).Alike (setting reg scorer effort t' hints) :=
    { registry_eq := rfl
      order_eq := rfl
      steps_eq := by
        have hsteps : insertions reg effort t' hints = insertions reg effort t hints := by
          rw [insertions, insertions, hratio]
        exact hsteps
      maxCandidates_eq := rfl
      score_eq := hscore }
  rw [refine, refine, hassess]
  simp only [halike.climb_eq]

end Search

variable {S : Type} [Scalar S] {reg : Registry} {t t' : Task}

/-! ## Tasks with the same examples -/

/-- The comparisons of a program depend on the examples only. -/
theorem Program.diffs_congr (h : t'.examples = t.examples) (p : Program) :
    (p.diffs reg t' : Except Fault (List (Diff S))) = p.diffs reg t := by
  rw [diffs, diffs, h]

/-- The score of a program depends on the examples only. -/
theorem Program.score_congr (h : t'.examples = t.examples) (p : Program) :
    (p.score reg t' : Except Fault S) = p.score reg t := by
  rw [Program.score, Program.score, diffs_congr h]

/-- A search by the score of programs depends on the examples only. -/
theorem Search.refine_congr_examples (h : t'.examples = t.examples) (effort : Effort) (p : Program)
    (hints : List Hint) :
    (refine reg (Program.score reg) effort p t' hints : Except Fault (Refinement S)) =
      refine reg (Program.score reg) effort p t hints := by
  refine refine_congr_task ?_ (Program.score_congr h) effort p hints
  rw [Invariants.ofTask, Invariants.ofTask, h]

/-- The hints of a verdict are read off its comparisons. -/
theorem Program.hints_of_evaluate {p : Program} {strictness : Strictness} {v : Verdict S}
    (h : p.evaluate reg strictness t = .ok v) : v.hints = Hint.ofDiffs v.diffs := by
  obtain ⟨outs, within, satisfied, cost, -, -, -, -, rfl⟩ := evaluate_eq_ok_iff.1 h
  rfl

/-- Verdicts on tasks with the same examples have the same hints. -/
theorem Program.hints_congr (h : t'.examples = t.examples) {p : Program} {strictness : Strictness}
    {v v' : Verdict S} (hv : p.evaluate reg strictness t = .ok v)
    (hv' : p.evaluate reg strictness t' = .ok v') : v'.hints = v.hints := by
  have hdiffs : (.ok v'.diffs : Except Fault (List (Diff S))) = .ok v.diffs := by
    rw [← diffs_of_evaluate hv', ← diffs_of_evaluate hv, diffs_congr h]
  rw [hints_of_evaluate hv', hints_of_evaluate hv, Except.ok.inj hdiffs]

/-- In the outcome of a repair, a program that is not certified has a search from its verdict. -/
theorem refinement_of_repair {config : RepairConfig} {p : Program} {o : Outcome S}
    (h : repair reg config p t = .ok o) (hcert : o.initial.certified = false) :
    p.evaluate reg config.strictness t = .ok o.initial ∧
      ∃ r, searchFrom reg config.effort p t o.initial = .ok r ∧ o.refinement? = some r := by
  obtain ⟨v, hv, ⟨hcert', rfl⟩ | ⟨r, -, hr, ⟨-, rfl⟩ | ⟨-, v', -, rfl⟩⟩⟩ := repair_cases h
  · rw [hcert'] at hcert
    cases hcert
  · exact ⟨hv, r, hr, rfl⟩
  · exact ⟨hv, r, hr, rfl⟩

/-- **A search does not see tests.**  On tasks with the same examples, whatever their tests, their
training pairs without output and their names are, a search by the score of programs gives the same
result, or ends in the same breach; and so do the searches inside two repairs that have outcomes and start from programs that are
not certified. -/
theorem search_ignores_tests (h : t'.examples = t.examples) :
    (∀ (effort : Effort) (p : Program) (hints : List Hint),
      (Search.refine reg (Program.score reg) effort p t' hints : Except Fault (Refinement S)) =
        Search.refine reg (Program.score reg) effort p t hints) ∧
    ∀ (config : RepairConfig) (p : Program) (o o' : Outcome S),
      repair reg config p t = .ok o → repair reg config p t' = .ok o' →
      o.initial.certified = false → o'.initial.certified = false →
      ∃ r, o.refinement? = some r ∧ o'.refinement? = some r := by
  refine ⟨Search.refine_congr_examples h, fun config p o o' ho ho' hcert hcert' => ?_⟩
  obtain ⟨hv, r, hr, hfound⟩ := refinement_of_repair ho hcert
  obtain ⟨hv', r', hr', hfound'⟩ := refinement_of_repair ho' hcert'
  -- both searches take the same hints, since the verdicts have the same comparisons
  rw [searchFrom, Program.hints_congr h hv hv', Search.refine_congr_examples h] at hr'
  obtain rfl := Except.ok.inj (hr.symm.trans hr')
  exact ⟨r, hfound, hfound'⟩

/-- The task that a quarter turn solves, under another name, with another training pair without
output and other tests. -/
def Task.quarterTurnElsewhere : Task where
  name := "elsewhere"
  train := ⟨⟨1, 1, #[7], rfl⟩, none⟩ :: Task.quarterTurn.train.eraseIdx 1
  test := [⟨⟨2, 2, #[2, 1, 1, 0], rfl⟩, none⟩, ⟨⟨1, 1, #[9], rfl⟩, some ⟨1, 1, #[8], rfl⟩⟩]

/-- The repairs of the identity for the two tasks have one and the same search. -/
theorem search_ignores_tests_quarterTurn :
    ∃ o o' : Outcome Rat, repair .standard .standard .identity .quarterTurn = .ok o ∧
      repair .standard .standard .identity .quarterTurnElsewhere = .ok o' ∧
      o.verdict.certified = true ∧ o'.verdict.certified = false ∧
      ∃ r, o.refinement? = some r ∧ o'.refinement? = some r := by
  have hexamples : Task.quarterTurnElsewhere.examples = Task.quarterTurn.examples := by
    decide +kernel
  obtain ⟨o, ho, hcert⟩ : ∃ o : Outcome Rat,
      repair .standard .standard .identity .quarterTurn = .ok o ∧
        (o.initial.certified, o.verdict.certified) = (false, true) :=
    exists_ok_of_map (by decide +kernel)
  obtain ⟨o', ho', hcert'⟩ : ∃ o' : Outcome Rat,
      repair .standard .standard .identity .quarterTurnElsewhere = .ok o' ∧
        (o'.initial.certified, o'.verdict.certified) = (false, false) :=
    exists_ok_of_map (by decide +kernel)
  rw [Prod.mk.injEq] at hcert hcert'
  exact ⟨o, o', ho, ho', hcert.2, hcert'.2,
    (search_ignores_tests hexamples).2 .standard .identity o o' ho ho' hcert.1 hcert'.1⟩

end GridRepair
