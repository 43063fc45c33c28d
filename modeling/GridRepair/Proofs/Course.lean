/-
# The course of a search

A climb goes from round to round until a round does not move, the rounds are used up or the score
is the best possible one.  `Course` describes such a run together with the positions in which its
rounds start, and `course_climb` says that every climb is one.  By induction on it:

* `Course.length_le`, `Course.edits_le` : every round but the last one adds an edit;
* `Course.counts` : every candidate of a round is counted, as evaluated or as discarded;
* `Course.nodup` : no program is handed to the scorer twice.

A climb, whether it ends in a breach or not, depends on the scorer only through the programs handed
to it (`climb_congr`), and it ends in a breach when assessing one of them is one (`exists_climb_iff`).

The effort that the result of a search reports is then accounted for (`refine_accounts`).
-/
import Mathlib.Data.List.Nodup
import GridRepair.Catalogue
import GridRepair.Proofs.Ascent

namespace GridRepair

namespace Search

variable {S : Type}

/-! ## Candidates of a round, counted -/

/-- Fresh candidates lead to different programs. -/
theorem nodup_fresh (seen : List Program) (cs : List Candidate) :
    ((fresh seen cs).map Candidate.program).Nodup := by
  induction cs generalizing seen with
  | nil => exact List.nodup_nil
  | cons c cs ih =>
    rw [fresh]
    by_cases hc : c.program ∈ seen
    · rw [if_pos hc]
      exact ih seen
    · rw [if_neg hc, List.map_cons, List.nodup_cons]
      refine ⟨fun hmem => ?_, ih _⟩
      -- what comes after the candidate was filtered with its program already seen
      obtain ⟨d, hd, heq⟩ := List.mem_map.1 hmem
      exact (mem_of_mem_fresh hd).2 (heq ▸ List.mem_cons_self)

/-- The candidates of a round lead to different programs. -/
theorem nodup_batch (s : Setting S) (x : Position S) :
    ((batch s x).map Candidate.program).Nodup :=
  (nodup_fresh x.visited _).sublist ((List.take_sublist _ _).map _)

/-- A round has no more candidates than it may have. -/
theorem length_batch_le (s : Setting S) (x : Position S) :
    (batch s x).length ≤ s.maxCandidates :=
  List.length_take_le _ _

/-- The program has a score and a cost. -/
def scorable (s : Setting S) (p : Program) : Bool :=
  (assess s.registry s.scorer s.task 0 p).isOk

/-- Whether an assessment succeeds does not depend on the place it is noted under. -/
theorem isOk_assess {reg : Registry} {scorer : Scorer S} {t : Task} (index index' : Nat)
    (p : Program) :
    (assess reg scorer t index p).isOk = (assess reg scorer t index' p).isOk := by
  unfold assess
  cases scorer p t with
  | error fault => rfl
  | ok score => cases p.cost reg <;> rfl

/-- The scored candidates are counted by their programs. -/
theorem length_assessFrom {s : Setting S} {index : Nat} {cs : List Candidate}
    {ss : List (Scored S)} (h : assessFrom s.registry s.scorer s.task index cs = .ok ss) :
    ss.length = (cs.map Candidate.program).countP (scorable s) := by
  induction cs generalizing index ss with
  | nil =>
    cases h
    rfl
  | cons c cs ih =>
    have hplace : scorable s c.program =
        (assess s.registry s.scorer s.task index c.program).isOk := isOk_assess 0 index _
    rw [List.map_cons, List.countP_cons, hplace]
    rcases assessFrom_cons_eq_ok_iff.1 h with ⟨w, ws, hc, hws, rfl⟩ | ⟨fault, hc, -, hss⟩
    · rw [hc, List.length_cons, ih hws]
      rfl
    · rw [hc, ih hss]
      rfl

/-- The scored candidates of a round are those whose program has a score and a cost. -/
theorem length_scored {s : Setting S} {cs : List Candidate} {ss : List (Scored S)}
    (h : scored s cs = .ok ss) : ss.length = (cs.map Candidate.program).countP (scorable s) :=
  length_assessFrom h

/-- The programs of the candidates of rounds that start in the given positions. -/
def handed (s : Setting S) (ys : List (Position S)) : List Program :=
  ys.flatMap fun y => (batch s y).map Candidate.program

/-- The programs of the first round come first. -/
theorem handed_cons (s : Setting S) (y : Position S) (ys : List (Position S)) :
    handed s (y :: ys) = (batch s y).map Candidate.program ++ handed s ys :=
  List.flatMap_cons

/-- Rounds hand over no more programs than they may. -/
theorem length_handed_le (s : Setting S) (ys : List (Position S)) :
    (handed s ys).length ≤ ys.length * s.maxCandidates := by
  induction ys with
  | nil => exact Nat.zero_le _
  | cons y ys ih =>
    rw [handed_cons, List.length_append, List.length_map, List.length_cons, Nat.succ_mul]
    have hbatch := length_batch_le s y
    omega

/-- Scores of candidates depend on the scorer and the task only through their programs. -/
theorem assessFrom_congr {reg : Registry} {scorer scorer' : Scorer S} {t t' : Task} {index : Nat}
    {cs : List Candidate} (h : ∀ c ∈ cs, scorer' c.program t' = scorer c.program t) :
    assessFrom reg scorer' t' index cs = assessFrom reg scorer t index cs := by
  induction cs generalizing index with
  | nil => rfl
  | cons c cs ih =>
    obtain ⟨hc, hcs⟩ := List.forall_mem_cons.1 h
    have hassess : assess reg scorer' t' index c.program = assess reg scorer t index c.program := by
      rw [assess, assess, hc]
    rw [assessFrom, assessFrom, hassess, ih hcs]

variable [Scalar S]

/-! ## What a round counts -/

section

variable {s : Setting S} {x x' : Position S} {moved : Bool}

/-- A round visits its candidates. -/
theorem visited_round (h : round s x = .ok (x', moved)) :
    x'.visited = (batch s x).map Candidate.program ++ x.visited := by
  obtain ⟨ss, -, ⟨c, score, -, rfl, -⟩ | ⟨-, rfl, -⟩⟩ := round_eq_ok_iff.1 h <;> rfl

/-- A round counts as one. -/
theorem rounds_round (h : round s x = .ok (x', moved)) : x'.rounds = x.rounds + 1 := by
  obtain ⟨ss, -, ⟨c, score, -, rfl, -⟩ | ⟨-, rfl, -⟩⟩ := round_eq_ok_iff.1 h <;> rfl

/-- A round evaluates the candidates that have a score and a cost. -/
theorem evaluated_round (h : round s x = .ok (x', moved)) :
    x'.evaluated =
      x.evaluated + ((batch s x).map Candidate.program).countP (scorable s) := by
  obtain ⟨ss, hss, hx'⟩ := round_eq_ok_iff.1 h
  rw [← length_scored hss]
  rcases hx' with ⟨c, score, -, rfl, -⟩ | ⟨-, rfl, -⟩ <;> rfl

/-- A round evaluates or discards each of its candidates. -/
theorem counted_round (h : round s x = .ok (x', moved)) :
    x'.evaluated + x'.discarded =
      x.evaluated + x.discarded + ((batch s x).map Candidate.program).length := by
  obtain ⟨ss, hss, hx'⟩ := round_eq_ok_iff.1 h
  have hle : ss.length ≤ (batch s x).length := by
    have hcount := List.countP_le_length (p := scorable s) (l := (batch s x).map Candidate.program)
    rwa [← length_scored hss, List.length_map] at hcount
  have hcounted : (record x (batch s x) ss).evaluated + (record x (batch s x) ss).discarded =
      x.evaluated + x.discarded + (batch s x).length := by
    simp only [record]
    omega
  rw [List.length_map]
  rcases hx' with ⟨c, score, -, rfl, -⟩ | ⟨-, rfl, -⟩ <;> exact hcounted

/-- A round that moves adds an edit. -/
theorem edits_of_moved (h : round s x = .ok (x', true)) :
    x'.edits.length = x.edits.length + 1 := by
  obtain ⟨ss, -, ⟨c, score, -, rfl, -⟩ | ⟨-, -, ⟨⟩⟩⟩ := round_eq_ok_iff.1 h
  exact List.length_append

/-- A round that does not move only records what it tried. -/
theorem round_of_rested (h : round s x = .ok (x', false)) :
    ∃ ss, scored s (batch s x) = .ok ss ∧ x' = record x (batch s x) ss := by
  obtain ⟨ss, hss, ⟨c, score, -, -, ⟨⟩⟩ | ⟨-, rfl, -⟩⟩ := round_eq_ok_iff.1 h
  exact ⟨ss, hss, rfl⟩

end

/-! ## Runs -/

/-- A climb of at most so many rounds from a position, the positions in which its rounds start, and
the position in which it ends. -/
inductive Course (s : Setting S) :
    Nat → Position S → List (Position S) → Position S → Prop where
  /-- no rounds are left, or the score is the best possible one -/
  | stop {n : Nat} {x : Position S}
    (h : n = 0 ∨ ¬ x.score < Scalar.maxScore - Scalar.tolerance) : Course s n x [] x
  /-- the round does not move -/
  | rest {n : Nat} {x x' : Position S} (hlt : x.score < Scalar.maxScore - Scalar.tolerance)
    (hrest : round s x = .ok (x', false)) : Course s (n + 1) x [x] x'
  /-- the round moves, and the climb goes on -/
  | move {n : Nat} {x x' y : Position S} {ys : List (Position S)}
    (hlt : x.score < Scalar.maxScore - Scalar.tolerance) (hmove : round s x = .ok (x', true))
    (hafter : Course s n x' ys y) : Course s (n + 1) x (x :: ys) y

/-- The positions in which the rounds of a climb start, in order.  A round that is a breach is the
last one. -/
def roundStarts (s : Setting S) : Nat → Position S → List (Position S)
  | 0, _ => []
  | n + 1, x =>
    if x.score < Scalar.maxScore - Scalar.tolerance then
      x :: match round s x with
        | .ok (x', true) => roundStarts s n x'
        | _ => []
    else []

/-- Below the best possible score, the first round starts where the climb starts. -/
theorem mem_roundStarts_self {s : Setting S} {n : Nat} {x : Position S}
    (hlt : x.score < Scalar.maxScore - Scalar.tolerance) : x ∈ roundStarts s (n + 1) x := by
  rw [roundStarts, if_pos hlt]
  exact List.mem_cons_self

/-- Every climb runs its course. -/
theorem course_climb {s : Setting S} {n : Nat} {x y : Position S} (h : climb s n x = .ok y) :
    Course s n x (roundStarts s n x) y := by
  induction n generalizing x with
  | zero =>
    cases h
    exact .stop (.inl rfl)
  | succ n ih =>
    rcases climb_succ_eq_ok_iff.1 h with ⟨hge, rfl⟩ | ⟨hlt, hr | ⟨x', hr, h⟩⟩
    · rw [roundStarts, if_neg hge]
      exact .stop (.inr hge)
    · rw [roundStarts, if_pos hlt, hr]
      exact .rest hlt hr
    · rw [roundStarts, if_pos hlt, hr]
      exact .move hlt hr (ih h)

/-- A climb comes to its end when assessing the programs that are handed over is no breach. -/
theorem exists_climb_iff {s : Setting S} {n : Nat} {x : Position S} :
    (∃ y, climb s n x = .ok y) ↔
      ∀ q ∈ handed s (roundStarts s n x), ¬ Breaks s.registry s.scorer s.task q := by
  induction n generalizing x with
  | zero => exact iff_of_true ⟨x, rfl⟩ (List.forall_mem_nil _)
  | succ n ih =>
    by_cases hlt : x.score < Scalar.maxScore - Scalar.tolerance
    swap
    · rw [climb, if_neg hlt, roundStarts, if_neg hlt]
      exact iff_of_true ⟨x, rfl⟩ (List.forall_mem_nil _)
    have hfirst : (∃ r, round s x = .ok r) ↔ ∀ q ∈ (batch s x).map Candidate.program,
        ¬ Breaks s.registry s.scorer s.task q := by
      rw [exists_round_iff, List.forall_mem_map]
    rw [climb, if_pos hlt, roundStarts, if_pos hlt, handed_cons]
    simp only [List.mem_append, or_imp, forall_and, ← hfirst]
    cases hround : round s x with
    | error fault => simp
    | ok r =>
      obtain ⟨x', moved⟩ := r
      cases moved with
      | false => simp [handed, pure, Except.pure]
      | true => simpa using ih

namespace Course

variable {s : Setting S} {n : Nat} {x y : Position S} {ys : List (Position S)}

/-- There is no other course than that of the climb. -/
theorem climb_eq (h : Course s n x ys y) : climb s n x = .ok y ∧ roundStarts s n x = ys := by
  induction h with
  | @stop n x h =>
    cases n with
    | zero => exact ⟨rfl, rfl⟩
    | succ n =>
      have hge : ¬ x.score < Scalar.maxScore - Scalar.tolerance := h.resolve_left (by omega)
      rw [climb, if_neg hge, roundStarts, if_neg hge]
      exact ⟨rfl, rfl⟩
  | rest hlt hrest =>
    rw [roundStarts, if_pos hlt, hrest]
    exact ⟨climb_succ_eq_ok_iff.2 (.inr ⟨hlt, .inl hrest⟩), rfl⟩
  | move hlt hmove _ ih =>
    rw [roundStarts, if_pos hlt, hmove]
    exact ⟨climb_succ_eq_ok_iff.2 (.inr ⟨hlt, .inr ⟨_, hmove, ih.1⟩⟩), congrArg _ ih.2⟩

/-- There are no more rounds than allowed, and all of them are counted. -/
theorem length_le (h : Course s n x ys y) :
    ys.length ≤ n ∧ y.rounds = x.rounds + ys.length := by
  induction h with
  | stop => exact ⟨Nat.zero_le _, rfl⟩
  | rest _ hrest => exact ⟨Nat.succ_le_succ (Nat.zero_le _), rounds_round hrest⟩
  | move _ hmove _ ih =>
    rw [rounds_round hmove] at ih
    rw [List.length_cons]
    omega

/-- All rounds but the last one add an edit, and the last one may. -/
theorem edits_le (h : Course s n x ys y) :
    y.edits.length ≤ x.edits.length + ys.length ∧
      x.edits.length + ys.length ≤ y.edits.length + 1 := by
  induction h with
  | stop =>
    rw [List.length_nil]
    omega
  | rest _ hrest =>
    obtain ⟨ss, -, rfl⟩ := round_of_rested hrest
    simp only [record, List.length_singleton]
    omega
  | move _ hmove _ ih =>
    rw [edits_of_moved hmove] at ih
    rw [List.length_cons]
    omega

/-- Every program that is handed over is counted: as evaluated when it has a score and a cost, and
as discarded otherwise. -/
theorem counts (h : Course s n x ys y) :
    y.evaluated = x.evaluated + (handed s ys).countP (scorable s) ∧
      y.evaluated + y.discarded = x.evaluated + x.discarded + (handed s ys).length := by
  induction h with
  | stop => exact ⟨rfl, rfl⟩
  | rest _ hrest =>
    rw [handed_cons, handed, List.flatMap_nil, List.append_nil]
    exact ⟨evaluated_round hrest, counted_round hrest⟩
  | move _ hmove _ ih =>
    have hevaluated := evaluated_round hmove
    have hcounted := counted_round hmove
    rw [handed_cons, List.countP_append, List.length_append]
    omega

/-- No program is handed over twice, and none that was visited before. -/
theorem nodup (h : Course s n x ys y) (hx : x.visited.Nodup) :
    (x.visited ++ handed s ys).Nodup := by
  have hround : ∀ {z z' : Position S} {moved}, round s z = .ok (z', moved) → z.visited.Nodup →
      z'.visited.Nodup := by
    intro z z' moved hr hz
    rw [visited_round hr, List.nodup_append']
    refine ⟨nodup_batch s z, hz, fun q hq hvisited => ?_⟩
    obtain ⟨c, hc, rfl⟩ := List.mem_map.1 hq
    exact (mem_batch hc).2 hvisited
  induction h with
  | stop => simpa [handed] using hx
  | rest _ hrest =>
    have hnext := hround hrest hx
    rw [visited_round hrest] at hnext
    rw [handed_cons, handed, List.flatMap_nil, List.append_nil]
    exact List.perm_append_comm.nodup_iff.1 hnext
  | move _ hmove _ ih =>
    have hafter := ih (hround hmove hx)
    rw [visited_round hmove, List.append_assoc] at hafter
    rw [handed_cons]
    refine (List.Perm.nodup_iff ?_).1 hafter
    -- the visited programs and the first batch trade places
    rw [← List.append_assoc, ← List.append_assoc]
    exact List.perm_append_comm.append_right _

end Course

/-! ## Other scorers -/

/-- The setting with another scorer. -/
def Setting.withScorer (s : Setting S) (scorer : Scorer S) : Setting S :=
  { s with scorer := scorer }

/-- A round depends on the scorer only through the programs of its candidates. -/
theorem round_congr {s : Setting S} {x : Position S} {scorer : Scorer S}
    (h : ∀ q ∈ (batch s x).map Candidate.program, scorer q s.task = s.scorer q s.task) :
    round (s.withScorer scorer) x = round s x := by
  have hscored : scored (s.withScorer scorer) (batch s x) = scored s (batch s x) :=
    assessFrom_congr fun c hc => h _ (List.mem_map_of_mem hc)
  have hbatch : batch (s.withScorer scorer) x = batch s x := rfl
  rw [round, round, hbatch, hscored]

/-- A climb depends on the scorer only through the programs that are handed over. -/
theorem climb_congr {s : Setting S} {n : Nat} {x : Position S} {scorer : Scorer S}
    (hsame : ∀ q ∈ handed s (roundStarts s n x), scorer q s.task = s.scorer q s.task) :
    climb (s.withScorer scorer) n x = climb s n x := by
  induction n generalizing x with
  | zero => rfl
  | succ n ih =>
    by_cases hlt : x.score < Scalar.maxScore - Scalar.tolerance
    · rw [roundStarts, if_pos hlt, handed_cons] at hsame
      rw [climb, climb, if_pos hlt, if_pos hlt,
        round_congr fun q hq => hsame q (List.mem_append_left _ hq)]
      cases hr : round s x with
      | error fault => rfl
      | ok r =>
        obtain ⟨x', moved⟩ := r
        cases moved with
        | false => rfl
        | true =>
          rw [hr] at hsame
          exact ih fun q hq => hsame q (List.mem_append_right _ hq)
    · rw [climb, climb, if_neg hlt, if_neg hlt]

/-! ## The effort of a search -/

/-- The programs that a search hands to the scorer, in order: the first program, then the
candidates of all rounds. -/
def tried (reg : Registry) (scorer : Scorer S) (effort : Effort) (p : Program) (t : Task)
    (hints : List Hint) : List Program :=
  match assess reg scorer t 0 p with
  | .error _ => [p]
  | .ok first =>
    let s := setting reg scorer effort t hints
    p :: handed s (roundStarts s effort.maxRounds (start p first.score))

variable {reg : Registry} {scorer : Scorer S} {effort : Effort} {p : Program} {t : Task}
  {hints : List Hint} {r : Refinement S}

/-- A search that takes place runs the course of a climb from its first program. -/
theorem refine_course (hr : refine reg scorer effort p t hints = .ok r)
    (h : r.success = true) :
    ∃ score y ys,
      Course (setting reg scorer effort t hints) effort.maxRounds (start p score) ys y ∧
      r = conclude p score y ∧
      tried reg scorer effort p t hints = p :: handed (setting reg scorer effort t hints) ys := by
  obtain ⟨score, cost, x, hscore, hcost, hx, rfl⟩ := refine_climbed hr h
  have hassess : assess reg scorer t 0 p = .ok ⟨0, score, cost⟩ :=
    assess_eq_ok_iff.2 ⟨rfl, hscore, hcost⟩
  exact ⟨score, x, _, course_climb hx, rfl, by simp only [tried, hassess]⟩

/-- A search has a result when assessing the programs that it hands to the scorer is no breach. -/
theorem exists_refine_iff :
    (∃ r, refine reg scorer effort p t hints = .ok r) ↔
      ∀ q ∈ tried reg scorer effort p t hints, ¬ Breaks reg scorer t q := by
  cases hfirst : assess reg scorer t 0 p with
  | error fault =>
    have htried : tried reg scorer effort p t hints = [p] := by simp only [tried, hfirst]
    rw [htried, List.forall_mem_singleton, Breaks, hfirst]
    cases fault <;> simp [refine, hfirst]
  | ok first =>
    have hp : ¬ Breaks reg scorer t p := by
      rintro ⟨cause, hbreach⟩
      cases hfirst.symm.trans hbreach
    have hclimb : (∃ y, climb (setting reg scorer effort t hints) effort.maxRounds
        (start p first.score) = .ok y) ↔ _ := exists_climb_iff
    simp only [tried, hfirst, List.forall_mem_cons]
    rw [and_iff_right hp]
    refine Iff.trans ⟨?_, ?_⟩ hclimb
    · rintro ⟨r, hr⟩
      simp only [refine, hfirst] at hr
      obtain ⟨y, hy, -⟩ := bind_eq_ok.1 hr
      exact ⟨y, hy⟩
    · rintro ⟨y, hy⟩
      exact ⟨conclude p first.score y, by simp only [refine, hfirst, hy]; rfl⟩

/-- A search fails with a breach only. -/
theorem refine_eq_error {fault : Fault} (h : refine reg scorer effort p t hints = .error fault) :
    ∃ cause, fault = .breach cause := by
  rw [refine] at h
  split at h
  · rcases bind_eq_error.1 h with h | ⟨y, -, h⟩
    · exact climb_eq_error h
    · cases h
  · next cause _ => exact ⟨cause, (Except.error.inj h).symm⟩
  · cases h

/-- Another scorer that agrees on the programs handed to the first one leads to the same result. -/
theorem refine_congr {scorer' : Scorer S}
    (h : ∀ q ∈ tried reg scorer effort p t hints, scorer' q t = scorer q t) :
    refine reg scorer' effort p t hints = refine reg scorer effort p t hints := by
  have hp : scorer' p t = scorer p t := by
    refine h p ?_
    rw [tried]
    split
    · exact List.mem_singleton_self p
    · exact List.mem_cons_self
  have hassess : assess reg scorer' t 0 p = assess reg scorer t 0 p := by
    rw [assess, assess, hp]
  cases hfirst : assess reg scorer t 0 p with
  | error fault => cases fault <;> simp only [refine, hassess, hfirst]
  | ok first =>
    simp only [tried, hfirst, List.forall_mem_cons] at h
    have hclimb : climb (setting reg scorer' effort t hints) effort.maxRounds
        (start p first.score) = climb (setting reg scorer effort t hints) effort.maxRounds
          (start p first.score) := climb_congr h.2
    simp only [refine, hassess, hfirst, hclimb]

/-- **The effort of a search is accounted for, and no work is repeated.**  Where a search takes
place, the programs it hands to the scorer are pairwise different, and its result depends on the
scorer only through them.  After the first one, all of them are counted, as evaluated when they
have a score and a cost and as discarded otherwise; there are at most so many of them as rounds
times candidates of a round; and every round but the last one adds an edit. -/
theorem refine_accounts {r : Refinement S} (hr : refine reg scorer effort p t hints = .ok r)
    (h : r.success = true) :
    (tried reg scorer effort p t hints).Nodup ∧
      (∀ scorer', (∀ q ∈ tried reg scorer effort p t hints, scorer' q t = scorer q t) →
        refine reg scorer' effort p t hints = .ok r) ∧
      r.evaluated = (tried reg scorer effort p t hints).tail.countP
        (scorable (setting reg scorer effort t hints)) ∧
      r.evaluated + r.discarded = (tried reg scorer effort p t hints).tail.length ∧
      r.evaluated + r.discarded ≤ r.rounds * effort.maxCandidates ∧
      r.edits.length ≤ r.rounds ∧ r.rounds ≤ min effort.maxRounds (r.edits.length + 1) := by
  have hcongr : ∀ scorer', (∀ q ∈ tried reg scorer effort p t hints, scorer' q t = scorer q t) →
      refine reg scorer' effort p t hints = .ok r :=
    fun scorer' hsame => (refine_congr hsame).trans hr
  obtain ⟨score, y, ys, hcourse, rfl, htried⟩ := refine_course hr h
  have hnodup : (p :: handed (setting reg scorer effort t hints) ys).Nodup :=
    hcourse.nodup (List.nodup_singleton p)
  obtain ⟨hevaluated, hall⟩ := hcourse.counts
  obtain ⟨hrounds, hcounted⟩ := hcourse.length_le
  obtain ⟨hedits, hedits'⟩ := hcourse.edits_le
  have hhanded := length_handed_le (setting reg scorer effort t hints) ys
  simp only [start, Nat.zero_add, List.length_nil] at hevaluated hall hcounted hedits hedits'
  refine ⟨htried ▸ hnodup, hcongr, ?_⟩
  rw [htried, List.tail_cons]
  simp only [conclude]
  refine ⟨hevaluated, hall, ?_, ?_, ?_⟩
  · rw [hall, hcounted]
    exact hhanded
  · omega
  · omega

/-- A scorer that prefers longer programs, and refuses single calls other than the identity. -/
def bySize : Scorer Rat := fun p _ =>
  if p.size = 1 ∧ p ≠ .identity then .error .emptyComposition else .ok (10 * p.size)

/-- Growing the identity for two rounds, with at most twenty candidates each, four of which are
refused. -/
theorem refine_accounts_bySize :
    ∃ r : Refinement Rat,
      refine .standard bySize ⟨2, true, true, 20⟩ .identity .quarterTurn [] = .ok r ∧
        r.success = true ∧ r.rounds = 2 ∧ r.edits.length = 2 ∧ r.evaluated = 36 ∧
        (tried .standard bySize ⟨2, true, true, 20⟩ .identity .quarterTurn []).Nodup ∧
        r.evaluated + r.discarded ≤ r.rounds * 20 ∧ r.rounds ≤ min 2 (r.edits.length + 1) := by
  have hrun : (refine .standard bySize ⟨2, true, true, 20⟩ .identity .quarterTurn []).toOption.map
      (fun r => (r.success, r.rounds, r.edits.length, r.evaluated)) = some (true, 2, 2, 36) := by
    decide +kernel
  obtain ⟨r, hr, hfields⟩ := exists_ok_of_map hrun
  simp only [Prod.mk.injEq] at hfields
  obtain ⟨hsuccess, hrounds, hedits, hevaluated⟩ := hfields
  obtain ⟨hnodup, -, -, -, hmax, -, hle⟩ := refine_accounts hr hsuccess
  exact ⟨r, hr, hsuccess, hrounds, hedits, hevaluated, hnodup, hmax, hle⟩

end Search

end GridRepair
