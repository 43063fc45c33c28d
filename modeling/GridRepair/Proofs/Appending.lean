/-
# One step more

`Program.followedBy` puts a step at the end of a program, which runs it on what the program gives
(`run_followedBy`) and adds its cost (`cost_followedBy`).  Every step on offer is tried at the end
of the current program (`exists_candidate_followedBy`).  So a search from a program that lacks a
single step, which is among the steps on offer, takes one round and one edit, if that round is no breach
(`refine_foundAtOnce`): the completed program has the best possible score, and no other score comes
near it.
-/
import GridRepair.Proofs.Choice
import GridRepair.Proofs.Editing
import GridRepair.Proofs.Flattening
import GridRepair.Proofs.Grading
import GridRepair.Proofs.Guidance
import GridRepair.Proofs.Memoryless

namespace GridRepair

namespace Program

variable {reg : Registry} {p step : Program}

/-- The program with one more step at its end. -/
def followedBy (p step : Program) : Program := .compose (p.asSteps ++ [step])

/-- A program followed by a step is another program. -/
theorem followedBy_ne (p step : Program) : p.followedBy step ≠ p := by
  cases p with
  | compose steps =>
    intro h
    have hlength := congrArg List.length (Program.compose.inj h)
    rw [asSteps, List.length_append, List.length_singleton] at hlength
    omega
  | call name args => exact Program.noConfusion
  | literal v => exact Program.noConfusion

/-! ## Running one step more -/

/-- Steps with one more at their end evaluate it on the grid that the others give. -/
theorem evalSteps_concat_eq_ok_iff {steps : List Program} (hne : steps ≠ []) {g : Grid}
    {v : Value} :
    evalSteps reg (steps ++ [step]) g = .ok v ↔
      ∃ g', evalSteps reg steps g = .ok (.grid g') ∧ step.eval reg g' = .ok v := by
  induction steps generalizing g with
  | nil => exact absurd rfl hne
  | cons p ps ih =>
    rw [List.cons_append, evalSteps_cons_eq_ok_iff (List.concat_ne_nil step ps)]
    by_cases hps : ps = []
    · subst hps
      simp only [List.nil_append, evalSteps_singleton]
    · simp only [ih hps, evalSteps_cons_eq_ok_iff hps]
      constructor
      · rintro ⟨g₁, h₁, g₂, h₂, h⟩
        exact ⟨g₂, ⟨g₁, h₁, h₂⟩, h⟩
      · rintro ⟨g₂, ⟨g₁, h₁, h₂⟩, h⟩
        exact ⟨g₁, h₁, g₂, h₂, h⟩

/-- A program is evaluated by its steps. -/
theorem evalSteps_asSteps (p : Program) (g : Grid) :
    evalSteps reg p.asSteps g = p.eval reg g := by
  cases p with
  | compose steps => rw [asSteps, eval]
  | call name args => exact evalSteps_singleton _ g
  | literal v => exact evalSteps_singleton _ g

/-- A program followed by a step runs the step on what the program gives. -/
theorem run_followedBy {g g' out : Grid} (h : p.run reg g = .ok g')
    (hstep : step.run reg g' = .ok out) : (p.followedBy step).run reg g = .ok out := by
  rw [run_eq_ok_iff] at h hstep ⊢
  rw [← evalSteps_asSteps] at h
  have hne : p.asSteps ≠ [] := by
    intro hnil
    rw [hnil] at h
    cases h
  rw [followedBy, eval]
  exact (evalSteps_concat_eq_ok_iff hne).2 ⟨g', h, hstep⟩

/-- Running the step on what the program gives leads to the output of every example. -/
def CompletedBy (reg : Registry) (p step : Program) (t : Task) : Prop :=
  ∀ e ∈ t.examples, ∃ out, p.run reg e.input = .ok out ∧ step.run reg out = .ok e.output

/-- A program that is completed by a step solves all examples when it is followed by the step. -/
theorem CompletedBy.solves {t : Task} (h : p.CompletedBy reg step t) :
    (p.followedBy step).Solves reg t := by
  intro e he
  obtain ⟨out, hrun, hstep⟩ := h e he
  exact run_followedBy hrun hstep

/-! ## The cost of one step more -/

/-- Steps with one more at their end cost as much more as it does. -/
theorem costFrom_concat {steps : List Program} {spent total c : Nat}
    (h : costFrom reg spent steps = .ok total) (hstep : step.cost reg = .ok c)
    (hle : total + c ≤ maxCost) : costFrom reg spent (steps ++ [step]) = .ok (total + c) := by
  induction steps generalizing spent with
  | nil =>
    rw [costFrom, Except.ok.injEq] at h
    subst h
    rw [List.nil_append, costFrom, hstep, ok_bind, if_pos hle, costFrom]
  | cons p ps ih =>
    rw [costFrom, bind_eq_ok] at h
    obtain ⟨first, hfirst, h⟩ := h
    by_cases hmax : spent + first ≤ maxCost
    · rw [if_pos hmax] at h
      rw [List.cons_append, costFrom, hfirst, ok_bind, if_pos hmax]
      exact ih h
    · rw [if_neg hmax] at h
      cases h

/-- A program followed by a step costs as much more as the step does. -/
theorem cost_followedBy {total c : Nat} (h : p.cost reg = .ok total)
    (hstep : step.cost reg = .ok c) (hle : total + c ≤ maxCost) :
    (p.followedBy step).cost reg = .ok (total + c) := by
  have hsteps : costFrom reg 0 p.asSteps = .ok total := by
    rw [costFrom_asSteps, h]
    intro total' htotal
    rw [h, Except.ok.injEq] at htotal
    omega
  rw [followedBy, cost]
  exact costFrom_concat hsteps hstep hle

end Program

/-! ## Proposing one step more -/

/-- An insertion that puts a step at the end of a call or of a composition is on offer there. -/
theorem Proposal.exists_insertion_followedBy {p step : Program} {steps : List Program}
    (hp : ∀ v, p ≠ .literal v) (hstep : step ∈ steps) :
    ∃ edit ∈ insertionsAt steps [] p, edit.apply p = .ok (p.followedBy step) := by
  have happly : (Edit.insert [] p.asSteps.length step).apply p = .ok (p.followedBy step) := by
    refine Edit.apply_insert_eq_ok_iff.2 ⟨p, rfl, hp, Nat.le_refl _, ?_⟩
    rw [List.insertIdx_length_self]
    rfl
  have hslot : p.asSteps.length < slots [] p := by
    cases p with
    | compose others => exact Nat.lt_succ_self _
    | call name args => exact Nat.one_lt_two
    | literal v => exact absurd rfl (hp v)
  exact ⟨_, mem_insertionsAt_iff.2 ⟨p.asSteps.length, step, rfl, hslot, hstep⟩, happly⟩

/-- Where steps are inserted, every one of them is tried at the end of a call or a composition. -/
theorem Proposal.exists_candidate_followedBy {reg : Registry} {order : List Edit.Family}
    {steps : List Program} {p step : Program} (hp : ∀ v, p ≠ .literal v) (hstep : step ∈ steps)
    (hinsert : .insert ∈ order) : ∃ c ∈ all reg order steps p, c.program = p.followedBy step := by
  obtain ⟨edit, hedit, happly⟩ := exists_insertion_followedBy hp hstep
  have hedits : edit ∈ edits reg steps p .insert :=
    List.mem_flatMap.2 ⟨([], p), Program.mem_walk_iff.2 rfl, hedit⟩
  exact ⟨⟨edit, _⟩, mem_all_iff.2 ⟨.insert, hinsert, hedits, happly⟩, rfl⟩

/-! ## Searching for one step more -/

/-- The search found a program that solves all examples by a single edit, in its only round. -/
structure Refinement.FoundAtOnce (reg : Registry) (t : Task) (r : Refinement Rat) : Prop where
  success : r.success = true
  improved : r.improved = true
  score_eq : r.score = 100
  rounds_eq : r.rounds = 1
  length_edits : r.edits.length = 1
  solves : r.program.Solves reg t

namespace Search

variable {reg : Registry} {effort : Effort} {p step : Program} {t : Task} {hints : List Hint}
  {score : Rat}

/-- The first round adopts a program that solves all examples, when a step on offer completes the
current program and no candidate is left out. -/
theorem adopts_of_completing {cost : Nat} (hp : ∀ v, p ≠ .literal v)
    (hscore : p.score reg t = .ok score) (hmany : t.examples.length ≤ 10 ^ 9)
    (hunsolved : ¬ p.Solves reg t) (hstep : step ∈ insertions reg effort t hints)
    (hsolves : (p.followedBy step).Solves reg t) (hcost : (p.followedBy step).cost reg = .ok cost)
    (hcap : (offers (setting reg (Program.score reg) effort t hints) (start p score)).length ≤
      effort.maxCandidates)
    (hround : ∃ r, round (setting reg (Program.score reg) effort t hints) (start p score) = .ok r) :
    ∃ c, Adopts (setting reg (Program.score reg) effort t hints) (start p score) c 100 ∧
      c.program.Solves reg t := by
  have hne : t.examples ≠ [] := by
    intro hnil
    exact hunsolved fun e he => absurd (hnil ▸ he) List.not_mem_nil
  obtain ⟨c, hc, hprogram⟩ : ∃ c ∈ Proposal.all reg (order effort hints)
      (insertions reg effort t hints) p, c.program = p.followedBy step :=
    Proposal.exists_candidate_followedBy hp hstep
      ((order_perm effort hints).mem_iff.2 (by decide))
  -- the completed program is not the first one, so it is among the fresh candidates
  have hfresh : c.program ∈ [p] ∨
      ∃ d ∈ offers (setting reg (Program.score reg) effort t hints) (start p score),
        d.program = c.program := mem_seen_or_fresh hc
  obtain ⟨d, hd, heq⟩ := hfresh.resolve_left fun hmem =>
    Program.followedBy_ne p step (hprogram.symm.trans (List.mem_singleton.1 hmem))
  rw [hprogram] at heq
  rw [← batch_eq_offers hcap] at hd
  have hrates : Rates (setting reg (Program.score reg) effort t hints) d (100 : Rat) := by
    rw [← heq] at hsolves hcost
    exact ⟨Program.score_of_solves hne hsolves, cost, hcost⟩
  -- any other candidate solves all examples too, or stays away from the best score
  have hlow : ∀ d' ∈ batch (setting reg (Program.score reg) effort t hints) (start p score),
      ∀ score' : Rat, Rates (setting reg (Program.score reg) effort t hints) d' score' →
        score' = 100 ∨ score' + Scalar.tolerance < 100 := by
    rintro d' - score' ⟨hscore', -⟩
    by_cases hsolves' : d'.program.Solves reg t
    · have hbest : d'.program.score reg t = .ok (100 : Rat) :=
        Program.score_of_solves hne hsolves'
      exact Or.inl (Except.ok.inj (hscore'.symm.trans hbest))
    · exact Or.inr (Program.score_gap hscore' hmany hsolves')
  obtain ⟨⟨x', moved⟩, hround⟩ := hround
  obtain ⟨ss, hss, -⟩ := round_eq_ok_iff.1 hround
  obtain ⟨w, hadopts⟩ :=
    adopts_of_isolated hss hd hrates (Program.score_gap hscore hmany hunsolved) hlow
  refine ⟨w, hadopts, by_contra fun hnot => ?_⟩
  have hpos := Scalar.tolerance_pos
  have hgap := Program.score_gap hadopts.rates.1 hmany hnot
  linarith

/-- A search whose only round adopts a solution has found it at once. -/
theorem foundAtOnce_of_adopts {s : Setting Rat} {c : Candidate} {x : Position Rat}
    (hround : round s (start p score) = .ok (x, true)) (hcurrent : x.current = c.program)
    (hbest : x.score = 100) (hedits : x.edits = [c.edit]) (hgap : score + Scalar.tolerance < 100)
    (hsolves : c.program.Solves reg t) : (conclude p score x).FoundAtOnce reg t := by
  have himproved : (conclude p score x).improved = true := by
    rw [conclude, decide_eq_true_iff, hbest]
    exact hgap
  have hprogram : (conclude p score x).program = c.program := by
    have hif : (conclude p score x).program =
        if (conclude p score x).improved then x.current else p := rfl
    rw [hif, if_pos himproved, hcurrent]
  exact
    { success := rfl
      improved := himproved
      score_eq := hbest
      rounds_eq := rounds_round hround
      length_edits := congrArg List.length hedits
      solves := hprogram ▸ hsolves }

/-- A search that is offered a step which completes its first program finds a solution at once. -/
theorem refine_foundAtOnce {cost cost' : Nat} (hp : ∀ v, p ≠ .literal v)
    (hscore : p.score reg t = .ok score) (hcost : p.cost reg = .ok cost)
    (hmany : t.examples.length ≤ 10 ^ 9) (hunsolved : ¬ p.Solves reg t)
    (hstep : step ∈ insertions reg effort t hints) (hsolves : (p.followedBy step).Solves reg t)
    (hcost' : (p.followedBy step).cost reg = .ok cost') (hrounds : 1 ≤ effort.maxRounds)
    (hcap : (offers (setting reg (Program.score reg) effort t hints) (start p score)).length ≤
      effort.maxCandidates)
    (hround : ∃ r, round (setting reg (Program.score reg) effort t hints) (start p score) = .ok r) :
    ∃ r, refine reg (Program.score reg) effort p t hints = .ok r ∧ r.FoundAtOnce reg t := by
  have hgap : score + Scalar.tolerance < 100 := Program.score_gap hscore hmany hunsolved
  have hpos := Scalar.tolerance_pos
  obtain ⟨c, ⟨-, -, x, hmoved, hcurrent, hbest, hedits⟩, hfound⟩ :=
    adopts_of_completing hp hscore hmany hunsolved hstep hsolves hcost' hcap hround
  have hassess : assess reg (Program.score reg) t 0 p = .ok ⟨0, score, cost⟩ :=
    assess_eq_ok_iff.2 ⟨rfl, hscore, hcost⟩
  have hlt : (start p score).score < Scalar.maxScore - Scalar.tolerance := by
    rw [Scalar.maxScore_eq]
    exact lt_sub_iff_add_lt.2 hgap
  -- the climb stops after the round, at the best possible score
  have hstays : ¬ x.score < Scalar.maxScore - Scalar.tolerance := by
    rw [hbest, Scalar.maxScore_eq]
    linarith
  obtain ⟨n, hn⟩ : ∃ n, effort.maxRounds = n + 1 := ⟨effort.maxRounds - 1, by omega⟩
  have hstop : Course (setting reg (Program.score reg) effort t hints) n x [] x :=
    .stop (.inr hstays)
  have hclimb := (Course.move hlt hmoved hstop).climb_eq.1
  have hrefine : refine reg (Program.score reg) effort p t hints = .ok (conclude p score x) := by
    simp only [refine, hassess, hn, hclimb]
    rfl
  exact ⟨_, hrefine, foundAtOnce_of_adopts hmoved hcurrent hbest hedits hgap hfound⟩

end Search

end GridRepair
