/-
# Outcomes of a repair

A repair judges a program, searches from it and judges what the search found.  The parts of its
outcome agree with one another (`repair_consistent`): the search goes by the score of the first
verdict and ends with the score of the last one.

A program that the search found has a score and a cost, so judging it can only fail on a test
input, or where its invariants are checked out of range.  These are, next to a breach in the search,
the ways in which a repair of a program with a verdict fails (`RepairFails`, `repair_fails_iff`).
-/
import GridRepair.Repair
import GridRepair.Proofs.Course
import GridRepair.Proofs.Prediction

namespace GridRepair

variable {S : Type} [Scalar S] {reg : Registry} {config : RepairConfig} {p : Program} {t : Task}
  {v : Verdict S}

/-! ## The search inside a repair -/

section

variable {strictness : Strictness} {effort : Effort} {r : Refinement S}

/-- The search from a program with a verdict starts from the score of the verdict. -/
theorem searchFrom_eq_conclude (h : p.evaluate reg strictness t = .ok v)
    (hr : searchFrom reg effort p t v = .ok r) :
    ∃ x, Search.Reached (Search.setting reg (Program.score reg) effort t v.hints) p v.score x ∧
      r = Search.conclude p v.score x := by
  obtain ⟨hscore, hcost⟩ := Program.score_of_evaluate h
  rw [searchFrom, Search.refine_of_score hscore hcost] at hr
  obtain ⟨x, hx, hr⟩ := bind_eq_ok.1 hr
  have hstart : Search.Reached (Search.setting reg (Program.score reg) effort t v.hints) p v.score
      (Search.start p v.score) := Search.reached_start hscore hcost
  exact ⟨x, hstart.climb hx, (pure_eq_ok.1 hr).symm⟩

/-- A search from a program with a verdict takes place. -/
theorem searchFrom_start (h : p.evaluate reg strictness t = .ok v)
    (hr : searchFrom reg effort p t v = .ok r) :
    r.success = true ∧ r.start = p ∧ r.startScore = v.score := by
  obtain ⟨x, -, rfl⟩ := searchFrom_eq_conclude h hr
  exact ⟨rfl, rfl, rfl⟩

/-- A search that did not improve gives its first program back, with its score unless there were
edits that did not raise it enough. -/
theorem searchFrom_unimproved (h : p.evaluate reg strictness t = .ok v)
    (hr : searchFrom reg effort p t v = .ok r) (hsame : r.improved = false) :
    r.program = p ∧ (r.edits = [] → r.score = v.score) := by
  obtain ⟨x, hx, rfl⟩ := searchFrom_eq_conclude h hr
  refine ⟨if_neg (by simpa [Search.conclude] using hsame), fun hnil => ?_⟩
  have hstart := hx.ascent
  rw [show x.edits = [] from hnil] at hstart
  exact hstart.eq_start.2

/-- An improved program has the score that the search reports, and a cost. -/
theorem searchFrom_improved (h : p.evaluate reg strictness t = .ok v)
    (hr : searchFrom reg effort p t v = .ok r) (himproved : r.improved = true) :
    r.program.score reg t = .ok r.score ∧ ∃ cost, r.program.cost reg = .ok cost := by
  obtain ⟨x, hx, rfl⟩ := searchFrom_eq_conclude h hr
  have hprogram : (Search.conclude p v.score x).program = x.current := if_pos himproved
  rw [hprogram]
  exact ⟨hx.ascent.score_eq, hx.ascent.exists_cost⟩

end

/-! ## The ways of a repair -/

/-- A certified program is left as it is. -/
theorem repair_of_certified (h : p.evaluate reg config.strictness t = .ok v)
    (hcert : v.certified = true) : repair reg config p t = .ok ⟨v, none, v⟩ := by
  rw [repair, h, ok_bind, if_pos hcert]
  rfl

/-- A program that is not certified is searched from. -/
theorem repair_of_uncertified (h : p.evaluate reg config.strictness t = .ok v)
    (hcert : v.certified = false) : repair reg config p t = (do
      let found ← searchFrom reg config.effort p t v
      let verdict ←
        if found.improved then found.program.evaluate reg config.strictness t else pure v
      pure ⟨v, some found, verdict⟩) := by
  rw [repair, h, ok_bind, if_neg (by simp [hcert])]

variable {r : Refinement S}

/-- Without an improvement, the verdict stands. -/
theorem repair_of_unimproved (h : p.evaluate reg config.strictness t = .ok v)
    (hcert : v.certified = false) (hr : searchFrom reg config.effort p t v = .ok r)
    (hsame : r.improved = false) : repair reg config p t = .ok ⟨v, some r, v⟩ := by
  rw [repair_of_uncertified h hcert, hr, ok_bind, hsame]
  rfl

/-- An improved program is judged in place of the first one. -/
theorem repair_of_improved (h : p.evaluate reg config.strictness t = .ok v)
    (hcert : v.certified = false) (hr : searchFrom reg config.effort p t v = .ok r)
    (himproved : r.improved = true) :
    repair reg config p t =
      (r.program.evaluate reg config.strictness t).map fun verdict => ⟨v, some r, verdict⟩ := by
  rw [repair_of_uncertified h hcert, hr, ok_bind, himproved, if_pos rfl]
  cases (r.program.evaluate reg config.strictness t : Except Fault (Verdict S)) <;> rfl

/-- The outcomes a repair can have: the program is certified, the search did not improve on it, or
the improved program has a verdict of its own. -/
theorem repair_cases {o : Outcome S} (h : repair reg config p t = .ok o) :
    ∃ v : Verdict S, p.evaluate reg config.strictness t = .ok v ∧
      ((v.certified = true ∧ o = ⟨v, none, v⟩) ∨
        ∃ r, v.certified = false ∧ searchFrom reg config.effort p t v = .ok r ∧
          ((r.improved = false ∧ o = ⟨v, some r, v⟩) ∨
            (r.improved = true ∧ ∃ v' : Verdict S,
              r.program.evaluate reg config.strictness t = .ok v' ∧ o = ⟨v, some r, v'⟩))) := by
  obtain ⟨v, hv, -⟩ := bind_eq_ok.1 h
  refine ⟨v, hv, ?_⟩
  cases hcert : v.certified with
  | true =>
    rw [repair_of_certified hv hcert, Except.ok.injEq] at h
    exact .inl ⟨rfl, h.symm⟩
  | false =>
    obtain ⟨r, hr, -⟩ := bind_eq_ok.1 (repair_of_uncertified hv hcert ▸ h)
    refine .inr ⟨r, rfl, hr, ?_⟩
    cases himproved : r.improved with
    | false =>
      rw [repair_of_unimproved hv hcert hr himproved, Except.ok.injEq] at h
      exact .inl ⟨rfl, h.symm⟩
    | true =>
      rw [repair_of_improved hv hcert hr himproved] at h
      obtain ⟨v', hv', rfl⟩ := map_eq_ok.1 h
      exact .inr ⟨rfl, v', hv', rfl⟩

/-! ## Agreement of the parts -/

/-- The parts of an outcome agree with one another. -/
structure Outcome.Consistent (reg : Registry) (config : RepairConfig) (p : Program) (t : Task)
    (o : Outcome S) : Prop where
  /-- the first verdict is the one on the proposed program -/
  initial_eq : p.evaluate reg config.strictness t = .ok o.initial
  /-- there is a search unless the proposed program is certified -/
  search_iff : o.refinement? = none ↔ o.initial.certified = true
  /-- the search takes place, from the proposed program and its score -/
  search_start : ∀ r, o.refinement? = some r →
    r.success = true ∧ r.start = p ∧ r.startScore = o.initial.score
  /-- the last verdict is the one on the program that the search gives, if there is one -/
  verdict_eq : ((o.refinement?.map Refinement.program).getD p).evaluate reg config.strictness t =
    .ok o.verdict
  /-- a search that improved, or did nothing, ends with the score of the last verdict -/
  search_score : ∀ r, o.refinement? = some r → r.improved = true ∨ r.edits = [] →
    r.score = o.verdict.score

/-- The parts of every outcome agree, whatever scores are computed with. -/
theorem Outcome.consistent_of_repair {o : Outcome S} (h : repair reg config p t = .ok o) :
    o.Consistent reg config p t := by
  obtain ⟨v, hv, ⟨hcert, rfl⟩ | ⟨r, hcert, hr, hcases⟩⟩ := repair_cases h
  · exact ⟨hv, iff_of_true rfl hcert, by simp, hv, by simp⟩
  have hstart := searchFrom_start hv hr
  rcases hcases with ⟨hsame, rfl⟩ | ⟨himproved, v', hv', rfl⟩
  · -- not improved: the search gives the first program back, whose verdict stands
    obtain ⟨hprogram, hscore⟩ := searchFrom_unimproved hv hr hsame
    refine ⟨hv, iff_of_false (by simp) (by simp [hcert]), ?_, ?_, ?_⟩
    · rintro r hr
      obtain rfl := Option.some.inj hr
      exact hstart
    · rw [Option.map_some, Option.getD_some, hprogram]
      exact hv
    · rintro r hr hdone
      obtain rfl := Option.some.inj hr
      exact hscore (hdone.resolve_left (by simp [hsame]))
  · -- improved: the score of the new verdict is the one that the search saw
    refine ⟨hv, iff_of_false (by simp) (by simp [hcert]), ?_, hv', ?_⟩
    · rintro r hr
      obtain rfl := Option.some.inj hr
      exact hstart
    · rintro r' hr' -
      obtain rfl := Option.some.inj hr'
      have hfound := (searchFrom_improved hv hr himproved).1
      rw [(Program.score_of_evaluate hv').1, Except.ok.injEq] at hfound
      exact hfound.symm

/-- With exact scores, a search that did not improve did nothing, and no search loses. -/
theorem searchFrom_exact {v : Verdict Rat} {strictness : Strictness} {effort : Effort}
    {r : Refinement Rat} (h : p.evaluate reg strictness t = .ok v)
    (hr : searchFrom reg effort p t v = .ok r) :
    (r.improved = true ∨ r.edits = []) ∧ v.score ≤ r.score := by
  obtain ⟨x, hx, rfl⟩ := searchFrom_eq_conclude h hr
  rw [hx.improved_iff]
  exact ⟨(em (x.edits = [])).symm, hx.ascent.le⟩

/-- **The parts of an outcome agree with one another.**  Whatever scores are computed with, the
verdicts are those on the proposed program and on the program that the search gives, and the
search starts from the first one; with exact scores the search always ends with the score of the
last verdict, which is at least the score of the first one. -/
theorem repair_consistent (reg : Registry) (config : RepairConfig) (p : Program) (t : Task) :
    (∀ {S : Type} [Scalar S] (o : Outcome S), repair reg config p t = .ok o →
      o.Consistent reg config p t) ∧
    ∀ o : Outcome Rat, repair reg config p t = .ok o →
      (∀ r, o.refinement? = some r → r.score = o.verdict.score) ∧
        o.initial.score ≤ o.verdict.score := by
  refine ⟨fun o h => Outcome.consistent_of_repair h, fun o h => ?_⟩
  have hagree := Outcome.consistent_of_repair h
  obtain ⟨v, hv, ⟨-, rfl⟩ | ⟨r, -, hr, hcases⟩⟩ := repair_cases h
  · exact ⟨by simp, le_refl v.score⟩
  obtain ⟨hdone, hle⟩ := searchFrom_exact hv hr
  rcases hcases with ⟨-, rfl⟩ | ⟨-, v', -, rfl⟩
  · refine ⟨fun r hr => ?_, le_refl v.score⟩
    obtain rfl := Option.some.inj hr
    exact hagree.search_score _ rfl hdone
  · have hscore : r.score = v'.score := hagree.search_score _ rfl hdone
    refine ⟨fun r hr => ?_, ?_⟩
    · obtain rfl := Option.some.inj hr
      exact hscore
    · rw [hscore] at hle
      exact hle

/-- The repair of the identity for a task that a quarter turn solves. -/
theorem repair_consistent_quarterTurn :
    ∃ o : Outcome Rat, repair .standard .standard .identity .quarterTurn = .ok o ∧
      o.initial.certified = false ∧ o.verdict.certified = true ∧
      o.Consistent .standard .standard .identity .quarterTurn ∧
      (∀ r, o.refinement? = some r → r.score = o.verdict.score) ∧
      o.initial.score ≤ o.verdict.score := by
  obtain ⟨o, ho, hcert⟩ : ∃ o : Outcome Rat,
      repair .standard .standard .identity .quarterTurn = .ok o ∧
        (o.initial.certified, o.verdict.certified) = (false, true) :=
    exists_ok_of_map (by decide +kernel)
  rw [Prod.mk.injEq] at hcert
  obtain ⟨hscore, hle⟩ := (repair_consistent .standard .standard .identity .quarterTurn).2 o ho
  exact ⟨o, ho, hcert.1, hcert.2,
    (repair_consistent .standard .standard .identity .quarterTurn).1 o ho, hscore, hle⟩

/-! ## Faults of a repair -/

/-- Why the repair of a program with a verdict has no outcome: the search ends in a breach; or the
program that it improved to fails on a test input; or, where that program passes its tests, the
invariants are checked out of range. -/
inductive RepairFails (reg : Registry) (config : RepairConfig) (p : Program) (t : Task)
    (v : Verdict S) : Fault → Prop where
  | search {cause : Breach} (hr : searchFrom reg config.effort p t v = .error (.breach cause)) :
    RepairFails reg config p t v (.breach cause)
  | test {r : Refinement S} {fault : Fault} (hr : searchFrom reg config.effort p t v = .ok r)
    (himproved : r.improved = true) (hrun : config.strictness.runTests = true)
    (hfirst : r.program.FailsFirst reg t.testInputs fault) : RepairFails reg config p t v fault
  | checks {r : Refinement S} (hr : searchFrom reg config.effort p t v = .ok r)
    (himproved : r.improved = true)
    (htests : config.strictness.runTests = true → ∀ q ∈ t.test, ∃ out,
      r.program.run reg q.input = .ok out)
    (hover : ¬ t.RatiosFit)
    (heval : (r.program.evaluate reg config.strictness t : Except Fault (Verdict S)) =
      .error (.breach .ratio)) : RepairFails reg config p t v (.breach .ratio)

/-- After an improvement, a repair fails where the improved program has no verdict. -/
theorem repair_eq_error_of_improved {fault : Fault}
    (h : p.evaluate reg config.strictness t = .ok v) (hcert : v.certified = false)
    (hr : searchFrom reg config.effort p t v = .ok r) (himproved : r.improved = true) :
    (repair reg config p t : Except Fault (Outcome S)) = .error fault ↔
      (config.strictness.runTests = true ∧ r.program.FailsFirst reg t.testInputs fault) ∨
        (∃ within, r.program.testsWithin reg config.strictness t = .ok within) ∧
          fault = .breach .ratio ∧ ¬ t.RatiosFit ∧
          (r.program.evaluate reg config.strictness t : Except Fault (Verdict S)) =
            .error fault := by
  obtain ⟨hscore, cost, hcost⟩ := searchFrom_improved h hr himproved
  rw [repair_of_improved h hcert hr himproved, map_eq_error, ← Program.testsWithin_eq_error_iff]
  exact Program.evaluate_eq_error_iff_of_score hscore hcost

/-- The repair of a program that is not certified fails for one of three reasons. -/
theorem repair_eq_error_iff {fault : Fault} (h : p.evaluate reg config.strictness t = .ok v)
    (hcert : v.certified = false) :
    (repair reg config p t : Except Fault (Outcome S)) = .error fault ↔
      RepairFails reg config p t v fault := by
  constructor
  · intro hfault
    cases hr : searchFrom reg config.effort p t v with
    | error other =>
      rw [repair_of_uncertified h hcert, hr] at hfault
      obtain rfl := Except.error.inj hfault
      obtain ⟨cause, rfl⟩ := Search.refine_eq_error hr
      exact .search hr
    | ok r =>
      cases himproved : r.improved with
      | false =>
        rw [repair_of_unimproved h hcert hr himproved] at hfault
        cases hfault
      | true =>
        rcases (repair_eq_error_of_improved h hcert hr himproved).1 hfault with
          ⟨hrun, hfirst⟩ | ⟨hwithin, rfl, hover, heval⟩
        · exact .test hr himproved hrun hfirst
        · exact .checks hr himproved (Program.exists_testsWithin_iff.1 hwithin) hover heval
  · rintro (hr | ⟨hr, himproved, hrun, hfirst⟩ | ⟨hr, himproved, htests, hover, heval⟩)
    · rw [repair_of_uncertified h hcert, hr]
      rfl
    · exact (repair_eq_error_of_improved h hcert hr himproved).2 (.inl ⟨hrun, hfirst⟩)
    · exact (repair_eq_error_of_improved h hcert hr himproved).2
        (.inr ⟨Program.exists_testsWithin_iff.2 htests, rfl, hover, heval⟩)

/-- **When a repair fails.**  Where the proposed program has a verdict, its repair fails with a fault
that is no breach exactly when the program is not certified, the search improved on it, tests are
run, and the improved program has this fault on the first test input on which it fails.  The only
breaches are those of the search and, where the sides of the examples are out of range, of the check
of the invariants.  So, if the search has a result and the sides are in range, there is an outcome
unless an improved program fails on a test input. -/
theorem repair_fails_iff {v : Verdict S} (h : p.evaluate reg config.strictness t = .ok v) :
    (∀ fault, (repair reg config p t : Except Fault (Outcome S)) = .error fault ↔
      v.certified = false ∧ RepairFails reg config p t v fault) ∧
    (∀ fault, (∀ cause, fault ≠ .breach cause) →
      ((repair reg config p t : Except Fault (Outcome S)) = .error fault ↔
        v.certified = false ∧ ∃ r, searchFrom reg config.effort p t v = .ok r ∧
          r.improved = true ∧ config.strictness.runTests = true ∧
          r.program.FailsFirst reg t.testInputs fault)) ∧
    (∀ r, searchFrom reg config.effort p t v = .ok r → t.RatiosFit →
      ((∃ o : Outcome S, repair reg config p t = .ok o) ↔
        v.certified = true ∨ r.improved = false ∨ config.strictness.runTests = false ∨
          ∀ q ∈ t.test, ∃ out, r.program.run reg q.input = .ok out)) ∧
    (v.certified = true → ∃ o : Outcome S, repair reg config p t = .ok o) := by
  have hfails : ∀ fault, (repair reg config p t : Except Fault (Outcome S)) = .error fault ↔
      v.certified = false ∧ RepairFails reg config p t v fault := by
    intro fault
    cases hcert : v.certified with
    | true =>
      rw [repair_of_certified h hcert]
      simp
    | false => rw [repair_eq_error_iff h hcert, and_iff_right rfl]
  refine ⟨hfails, fun fault hplain => ?_, fun r hr hfits => ?_,
    fun hcert => ⟨_, repair_of_certified h hcert⟩⟩
  · rw [hfails]
    refine and_congr_right fun _ => ⟨?_, ?_⟩
    · rintro (hr | ⟨hr, himproved, hrun, hfirst⟩ | ⟨hr, himproved, htests, hover, heval⟩)
      · exact absurd rfl (hplain _)
      · exact ⟨_, hr, himproved, hrun, hfirst⟩
      · exact absurd rfl (hplain _)
    · rintro ⟨r, hr, himproved, hrun, hfirst⟩
      exact .test hr himproved hrun hfirst
  · have hnone : (∃ o : Outcome S, repair reg config p t = .ok o) ↔
        ∀ fault, ¬ (v.certified = false ∧ RepairFails reg config p t v fault) := by
      simp only [← hfails]
      cases (repair reg config p t : Except Fault (Outcome S)) <;> simp
    rw [hnone]
    constructor
    · intro hok
      by_contra hlost
      push Not at hlost
      obtain ⟨hcert, himproved, hrun, q, hq, hstuck⟩ := hlost
      have htests : ¬ ∃ within, r.program.testsWithin reg config.strictness t = .ok within := by
        intro hwithin
        obtain ⟨out, hout⟩ := Program.exists_testsWithin_iff.1 hwithin (by simpa using hrun) q hq
        exact hstuck out hout
      cases hwithin : r.program.testsWithin reg config.strictness t with
      | ok within => exact htests ⟨within, hwithin⟩
      | error fault =>
        obtain ⟨hrun, hfirst⟩ := Program.testsWithin_eq_error_iff.1 hwithin
        exact hok fault ⟨by simpa using hcert, .test hr (by simpa using himproved) hrun hfirst⟩
    · rintro hdone fault ⟨hcert, hr' | ⟨hr', himproved, hrun, hfirst⟩ | ⟨-, -, -, hover, -⟩⟩
      · cases hr.symm.trans hr'
      · obtain rfl := Except.ok.inj (hr.symm.trans hr')
        rw [hcert, himproved, hrun] at hdone
        have hall : ∀ input ∈ t.testInputs, ∃ out, r.program.run reg input = .ok out := by
          rw [Task.testInputs, List.forall_mem_map]
          simpa using hdone
        obtain ⟨before, input, after, hsplit, -, hfail⟩ := hfirst
        obtain ⟨out, hout⟩ := hall input (by rw [hsplit]; simp)
        cases hout.symm.trans hfail
      · exact hover hfits

/-- A task with a test input that is too tall for what solves its example. -/
def Task.tall : Task where
  name := "tall"
  train := [⟨.full 1 1 1, some (.full 2 2 1)⟩]
  test := [⟨.full 129 1 1, none⟩]

/-- The fault of doubling the test input. -/
def Fault.tooTall : Fault := .invalidArgument "scale" (.tooLarge ⟨258, 2⟩ 256)

/-- The identity has a verdict on the tall task, and does not solve it. -/
theorem exists_verdict_tall : ∃ v : Verdict Rat,
    Program.identity.evaluate .standard RepairConfig.standard.strictness .tall = .ok v ∧
      v.certified = false :=
  exists_ok_of_map (by decide +kernel)

/-- The repair of the identity for the tall task fails when the doubled test input is judged. -/
theorem repair_tall_eq_error :
    (repair .standard .standard .identity .tall : Except Fault (Outcome Rat)) =
      .error .tooTall :=
  eq_error_of_fault? (by decide +kernel)

/-- A verdict on the proposed program does not give an outcome. -/
theorem not_repair_of_evaluate_tall :
    ¬ ((∃ v : Verdict Rat, Program.identity.evaluate .standard .standard .tall = .ok v) →
      ∃ o : Outcome Rat, repair .standard .standard .identity .tall = .ok o) := by
  intro h
  obtain ⟨v, hv, -⟩ := exists_verdict_tall
  obtain ⟨o, ho⟩ := h ⟨v, hv⟩
  rw [repair_tall_eq_error] at ho
  cases ho

/-- On the tall task, the improved program fails first on the test input. -/
theorem repair_fails_tall :
    ∃ (v : Verdict Rat) (r : Refinement Rat),
      Program.identity.evaluate .standard RepairConfig.standard.strictness .tall = .ok v ∧
        v.certified = false ∧ searchFrom .standard .standard .identity .tall v = .ok r ∧
        r.improved = true ∧
        r.program.FailsFirst .standard Task.tall.testInputs .tooTall := by
  obtain ⟨v, hv, -⟩ := exists_verdict_tall
  obtain ⟨hcert, r, hr, himproved, -, hfail⟩ :=
    ((repair_fails_iff hv).2.1 .tooTall nofun).1 repair_tall_eq_error
  exact ⟨v, r, hv, hcert, hr, himproved, hfail⟩

end GridRepair
