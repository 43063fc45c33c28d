/-
# Rounds of a search

What one round does, from its candidates to its move, and what a climb keeps because every round
keeps it.

* `mem_batch` : candidates are edits of the current program that lead to a program not visited;
* `mem_assessFrom` : a scored place is the place of its candidate;
* `exists_round_iff` : a round is made unless assessing one of its candidates is a breach;
* `winner?_eq_some` : the candidate a round moves to, looked up by its place, has the score that
  was compared;
* `climb_induction` : what rounds keep, climbs keep.
-/
import GridRepair.Search
import GridRepair.Proofs.Inversion

namespace GridRepair

namespace Search

/-! ## Candidates -/

/-- A fresh candidate is one of the list whose program was not seen. -/
theorem mem_of_mem_fresh {seen : List Program} {cs : List Candidate} {c : Candidate}
    (h : c ∈ fresh seen cs) : c ∈ cs ∧ c.program ∉ seen := by
  induction cs generalizing seen with
  | nil => cases h
  | cons d cs ih =>
    rw [fresh] at h
    by_cases hd : d.program ∈ seen
    · rw [if_pos hd] at h
      exact ⟨List.mem_cons_of_mem _ (ih h).1, (ih h).2⟩
    · rw [if_neg hd] at h
      rcases List.mem_cons.1 h with rfl | h
      · exact ⟨List.mem_cons_self, hd⟩
      · refine ⟨List.mem_cons_of_mem _ (ih h).1, fun hseen => (ih h).2 ?_⟩
        exact List.mem_cons_of_mem _ hseen

variable {S : Type}

/-- A candidate of a round comes from an edit of the current program and was not visited. -/
theorem mem_batch {s : Setting S} {x : Position S} {c : Candidate} (h : c ∈ batch s x) :
    c.edit.apply x.current = .ok c.program ∧ c.program ∉ x.visited := by
  obtain ⟨hall, hvisited⟩ := mem_of_mem_fresh (List.mem_of_mem_take h)
  obtain ⟨family, -, -, happly⟩ := Proposal.mem_all_iff.1 hall
  exact ⟨happly, hvisited⟩

/-! ## Scores -/

/-- An assessment notes the place, the score and the cost. -/
theorem assess_eq_ok_iff {reg : Registry} {scorer : Scorer S} {t : Task} {index : Nat}
    {p : Program} {w : Scored S} :
    assess reg scorer t index p = .ok w ↔
      w.index = index ∧ scorer p t = .ok w.score ∧ p.cost reg = .ok w.cost := by
  simp only [assess, bind_eq_ok, pure_eq_ok]
  constructor
  · rintro ⟨score, hscore, cost, hcost, rfl⟩
    exact ⟨rfl, hscore, hcost⟩
  · rintro ⟨rfl, hscore, hcost⟩
    exact ⟨w.score, hscore, w.cost, hcost, rfl⟩

/-- An assessment fails with the score, or else with the cost, whatever its place. -/
theorem assess_eq_error_iff {reg : Registry} {scorer : Scorer S} {t : Task} {index : Nat}
    {p : Program} {fault : Fault} :
    assess reg scorer t index p = .error fault ↔
      scorer p t = .error fault ∨ ∃ score, scorer p t = .ok score ∧ p.cost reg = .error fault := by
  simp only [assess, bind_eq_error, reduceCtorEq, pure, Except.pure, and_false, exists_false,
    or_false]

/-- Assessing the program is a breach, which no search gets past. -/
def Breaks (reg : Registry) (scorer : Scorer S) (t : Task) (p : Program) : Prop :=
  ∃ cause, assess reg scorer t 0 p = .error (.breach cause)

/-- A breach does not depend on the place of the program. -/
theorem breaks_of_assess {reg : Registry} {scorer : Scorer S} {t : Task} {index : Nat}
    {p : Program} {cause : Breach} (h : assess reg scorer t index p = .error (.breach cause)) :
    Breaks reg scorer t p :=
  ⟨cause, assess_eq_error_iff.2 (assess_eq_error_iff.1 h)⟩

/-- The first candidate of a list is scored or discarded, and the others go on from the next
place. -/
theorem assessFrom_cons_eq_ok_iff {reg : Registry} {scorer : Scorer S} {t : Task} {index : Nat}
    {c : Candidate} {cs : List Candidate} {ss : List (Scored S)} :
    assessFrom reg scorer t index (c :: cs) = .ok ss ↔
      (∃ w ws, assess reg scorer t index c.program = .ok w ∧
        assessFrom reg scorer t (index + 1) cs = .ok ws ∧ ss = w :: ws) ∨
      (∃ fault, assess reg scorer t index c.program = .error fault ∧
        (∀ cause, fault ≠ .breach cause) ∧ assessFrom reg scorer t (index + 1) cs = .ok ss) := by
  rw [assessFrom]
  cases hc : assess reg scorer t index c.program with
  | ok w =>
    simp only [bind_eq_ok, pure_eq_ok, Except.ok.injEq, reduceCtorEq, false_and, exists_false,
      or_false, exists_and_left, exists_eq_left', eq_comm (a := ss)]
  | error fault => cases fault <;> simp

/-- What is scored at a place belongs to the candidate at that place. -/
theorem mem_assessFrom {reg : Registry} {scorer : Scorer S} {t : Task} {index : Nat}
    {cs : List Candidate} {ss : List (Scored S)} (h : assessFrom reg scorer t index cs = .ok ss)
    {w : Scored S} (hw : w ∈ ss) :
    ∃ i c, w.index = index + i ∧ cs[i]? = some c ∧ scorer c.program t = .ok w.score ∧
      c.program.cost reg = .ok w.cost := by
  induction cs generalizing index ss with
  | nil =>
    cases h
    cases hw
  | cons d cs ih =>
    -- a discarded candidate uses up its place, so the rest starts at the next one either way
    have tail : ∀ {ws}, assessFrom reg scorer t (index + 1) cs = .ok ws → w ∈ ws →
        ∃ i c, w.index = index + i ∧ (d :: cs)[i]? = some c ∧
          scorer c.program t = .ok w.score ∧ c.program.cost reg = .ok w.cost := by
      intro ws hws hw
      obtain ⟨i, c, hi, hc, hscore, hcost⟩ := ih hws hw
      exact ⟨i + 1, c, by omega, by rwa [List.getElem?_cons_succ], hscore, hcost⟩
    rcases assessFrom_cons_eq_ok_iff.1 h with ⟨first, ws, hd, hws, rfl⟩ | ⟨fault, -, -, hws⟩
    · rcases List.mem_cons.1 hw with rfl | hw
      · obtain ⟨hi, hscore, hcost⟩ := assess_eq_ok_iff.1 hd
        exact ⟨0, d, hi, rfl, hscore, hcost⟩
      · exact tail hws hw
    · exact tail hws hw

/-- A list of candidates is scored unless one of them is a breach. -/
theorem exists_assessFrom_iff {reg : Registry} {scorer : Scorer S} {t : Task} (index : Nat)
    {cs : List Candidate} : (∃ ss, assessFrom reg scorer t index cs = .ok ss) ↔
      ∀ c ∈ cs, ¬ Breaks reg scorer t c.program := by
  induction cs generalizing index with
  | nil => exact ⟨fun _ => nofun, fun _ => ⟨[], rfl⟩⟩
  | cons c cs ih =>
    rw [List.forall_mem_cons, ← ih (index + 1)]
    simp only [assessFrom_cons_eq_ok_iff]
    constructor
    · rintro ⟨ss, ⟨w, ws, hc, hws, rfl⟩ | ⟨fault, hc, hplain, hss⟩⟩
      · refine ⟨fun ⟨cause, hbreach⟩ => ?_, ws, hws⟩
        obtain ⟨-, hscore, hcost⟩ := assess_eq_ok_iff.1 hc
        simp [assess_eq_error_iff, hscore, hcost] at hbreach
      · refine ⟨fun ⟨cause, hbreach⟩ => hplain cause ?_, ss, hss⟩
        have hagain : assess reg scorer t index c.program = .error (.breach cause) :=
          assess_eq_error_iff.2 (assess_eq_error_iff.1 hbreach)
        rw [hc] at hagain
        exact Except.error.inj hagain
    · rintro ⟨hsound, ws, hws⟩
      cases hc : assess reg scorer t index c.program with
      | ok w => exact ⟨w :: ws, .inl ⟨w, ws, rfl, hws, rfl⟩⟩
      | error fault =>
        refine ⟨ws, .inr ⟨fault, rfl, ?_, hws⟩⟩
        rintro cause rfl
        exact hsound (breaks_of_assess hc)

/-- Scoring a list of candidates fails with a breach only. -/
theorem assessFrom_eq_error {reg : Registry} {scorer : Scorer S} {t : Task} {index : Nat}
    {cs : List Candidate} {fault : Fault} (h : assessFrom reg scorer t index cs = .error fault) :
    ∃ cause, fault = .breach cause := by
  induction cs generalizing index with
  | nil => cases h
  | cons c cs ih =>
    rw [assessFrom] at h
    split at h
    · rcases bind_eq_error.1 h with h | ⟨ws, -, h⟩
      · exact ih h
      · cases h
    · next cause _ => exact ⟨cause, (Except.error.inj h).symm⟩
    · exact ih h

/-- The scored places of a round are places of candidates with that score and cost. -/
theorem mem_scored {s : Setting S} {cs : List Candidate} {ss : List (Scored S)}
    (h : scored s cs = .ok ss) {w : Scored S} (hw : w ∈ ss) :
    ∃ c, cs[w.index]? = some c ∧ s.scorer c.program s.task = .ok w.score ∧
      c.program.cost s.registry = .ok w.cost := by
  obtain ⟨i, c, hi, hc, hscore, hcost⟩ := mem_assessFrom h hw
  rw [Nat.zero_add] at hi
  exact ⟨c, hi ▸ hc, hscore, hcost⟩

variable [Scalar S]

/-- Choosing keeps one of the two. -/
theorem choose_eq (best next : Scored S) : choose best next = best ∨ choose best next = next := by
  rw [choose]
  split
  · exact Or.inr rfl
  · exact Or.inl rfl

/-- Choosing along a list keeps the first one or one of the list. -/
theorem foldl_choose_mem (best : Scored S) (ss : List (Scored S)) :
    ss.foldl choose best ∈ best :: ss := by
  induction ss generalizing best with
  | nil => exact List.mem_cons_self
  | cons next ss ih =>
    rw [List.foldl_cons]
    rcases List.mem_cons.1 (ih (choose best next)) with h | h
    · rw [h]
      rcases choose_eq best next with h' | h'
      · rw [h']
        exact List.mem_cons_self
      · rw [h']
        exact List.mem_cons_of_mem _ List.mem_cons_self
    · exact List.mem_cons_of_mem _ (List.mem_cons_of_mem _ h)

/-- The best of a list is in the list. -/
theorem mem_of_best? {ss : List (Scored S)} {w : Scored S} (h : best? ss = some w) : w ∈ ss := by
  cases ss with
  | nil => cases h
  | cons s ss =>
    rw [best?, Option.some.injEq] at h
    rw [← h]
    exact foldl_choose_mem s ss

/-! ## Moves -/

/-- The winner of a round is a candidate with its own score, which beats the current one. -/
theorem winner?_eq_some {s : Setting S} {x : Position S} {cs : List Candidate}
    {ss : List (Scored S)} (hss : scored s cs = .ok ss) {c : Candidate} {score : S}
    (h : winner? x cs ss = some (c, score)) :
    c ∈ cs ∧ s.scorer c.program s.task = .ok score ∧
      (∃ cost, c.program.cost s.registry = .ok cost) ∧
      x.score + Scalar.tolerance < score := by
  rw [winner?] at h
  cases hbest : best? ss with
  | none =>
    rw [hbest] at h
    cases h
  | some w =>
    simp only [hbest] at h
    obtain ⟨d, hd, hscore, hcost⟩ := mem_scored hss (mem_of_best? hbest)
    by_cases hlt : x.score + Scalar.tolerance < w.score
    · rw [if_pos hlt, hd, Option.map_some, Option.some.injEq, Prod.mk.injEq] at h
      obtain ⟨rfl, rfl⟩ := h
      exact ⟨List.mem_of_getElem? hd, hscore, ⟨w.cost, hcost⟩, hlt⟩
    · rw [if_neg hlt] at h
      cases h

/-- A round scores its candidates and records them, and moves to its winner if it has one. -/
theorem round_eq_ok_iff {s : Setting S} {x x' : Position S} {moved : Bool} :
    round s x = .ok (x', moved) ↔ ∃ ss, scored s (batch s x) = .ok ss ∧
      ((∃ c score, winner? x (batch s x) ss = some (c, score) ∧
          x' = move (record x (batch s x) ss) c score ∧ moved = true) ∨
        (winner? x (batch s x) ss = none ∧ x' = record x (batch s x) ss ∧ moved = false)) := by
  simp only [round, bind_eq_ok]
  refine exists_congr fun ss => and_congr_right fun _ => ?_
  cases winner? x (batch s x) ss with
  | none =>
    rw [pure_eq_ok, Prod.mk.injEq]
    constructor
    · rintro ⟨rfl, rfl⟩
      exact .inr ⟨rfl, rfl, rfl⟩
    · rintro (⟨_, _, ⟨⟩, -⟩ | ⟨-, rfl, rfl⟩)
      exact ⟨rfl, rfl⟩
  | some w =>
    rw [pure_eq_ok, Prod.mk.injEq]
    constructor
    · rintro ⟨rfl, rfl⟩
      exact .inl ⟨w.1, w.2, rfl, rfl, rfl⟩
    · rintro (⟨_, _, ⟨⟩, rfl, rfl⟩ | ⟨⟨⟩, -⟩)
      exact ⟨rfl, rfl⟩

/-- A round is made unless one of its candidates is a breach. -/
theorem exists_round_iff {s : Setting S} {x : Position S} :
    (∃ r, round s x = .ok r) ↔
      ∀ c ∈ batch s x, ¬ Breaks s.registry s.scorer s.task c.program := by
  rw [← exists_assessFrom_iff 0]
  constructor
  · rintro ⟨⟨x', moved⟩, h⟩
    obtain ⟨ss, hss, -⟩ := round_eq_ok_iff.1 h
    exact ⟨ss, hss⟩
  · rintro ⟨ss, hss⟩
    cases hw : winner? x (batch s x) ss with
    | none => exact ⟨_, round_eq_ok_iff.2 ⟨ss, hss, .inr ⟨hw, rfl, rfl⟩⟩⟩
    | some w => exact ⟨_, round_eq_ok_iff.2 ⟨ss, hss, .inl ⟨w.1, w.2, hw, rfl, rfl⟩⟩⟩

/-- A climb ends at once, or after the round it makes, or after a climb from there. -/
theorem climb_succ_eq_ok_iff {s : Setting S} {n : Nat} {x y : Position S} :
    climb s (n + 1) x = .ok y ↔
      (¬ x.score < Scalar.maxScore - Scalar.tolerance ∧ x = y) ∨
      (x.score < Scalar.maxScore - Scalar.tolerance ∧
        (round s x = .ok (y, false) ∨
          ∃ x', round s x = .ok (x', true) ∧ climb s n x' = .ok y)) := by
  rw [climb]
  by_cases hlt : x.score < Scalar.maxScore - Scalar.tolerance
  · rw [if_pos hlt]
    cases hr : round s x with
    | error fault => simp [hlt]
    | ok r =>
      obtain ⟨x', moved⟩ := r
      cases moved <;> simp [hlt, pure_eq_ok]
  · simp [hlt]

/-- A round fails with a breach only. -/
theorem round_eq_error {s : Setting S} {x : Position S} {fault : Fault}
    (h : round s x = .error fault) : ∃ cause, fault = .breach cause := by
  rcases bind_eq_error.1 h with h | ⟨ss, -, h⟩
  · exact assessFrom_eq_error h
  · split at h <;> cases h

/-- A climb fails with a breach only. -/
theorem climb_eq_error {s : Setting S} {n : Nat} {x : Position S} {fault : Fault}
    (h : climb s n x = .error fault) : ∃ cause, fault = .breach cause := by
  induction n generalizing x with
  | zero => cases h
  | succ n ih =>
    rw [climb] at h
    split at h
    · rcases bind_eq_error.1 h with h | ⟨⟨x', moved⟩, -, h⟩
      · exact round_eq_error h
      · cases moved with
        | false => cases h
        | true => exact ih h
    · cases h

/-- What every round keeps below the best possible score, a climb keeps. -/
theorem climb_induction {s : Setting S} {P : Position S → Prop}
    (hround : ∀ x x' moved, P x → x.score < Scalar.maxScore - Scalar.tolerance →
      round s x = .ok (x', moved) → P x')
    {n : Nat} {x y : Position S} (hx : P x) (h : climb s n x = .ok y) : P y := by
  induction n generalizing x with
  | zero =>
    cases h
    exact hx
  | succ n ih =>
    rcases climb_succ_eq_ok_iff.1 h with ⟨-, rfl⟩ | ⟨hlt, hr | ⟨x', hr, h⟩⟩
    · exact hx
    · exact hround x y false hx hlt hr
    · exact ih (hround x x' true hx hlt hr) h

end Search

end GridRepair
