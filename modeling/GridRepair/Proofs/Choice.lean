/-
# The choice of a round

Scores that differ by no more than the tolerance count as equal, and then the cheaper candidate
wins.  Being equal up to a tolerance is not transitive, so the one-by-one comparison of a round
need not end with a candidate of the highest score.  With exact scores:

* `best?_score_of_isolated` : it does when no other score lies within the tolerance of the highest
  one;
* `best?_within` : in any case it loses at most one tolerance with every comparison;
* `not_adopts_nearTies` : a chain of near ties can end below the current score, so that a round
  does not move although one of its candidates is better by more than the tolerance.

What this means for rounds is said by `round_adopts_best`.
-/
import GridRepair.Proofs.Ascent
import GridRepair.Proofs.Course

namespace GridRepair

namespace Search

/-! ## Candidates with a score -/

section Rates

variable {S : Type} {s : Setting S}

/-- The candidate is scored successfully: its program has this score, and a cost. -/
def Rates (s : Setting S) (c : Candidate) (score : S) : Prop :=
  s.scorer c.program s.task = .ok score ∧ ∃ cost, c.program.cost s.registry = .ok cost

/-- A candidate with a score and a cost is noted under its place. -/
theorem mem_assessFrom_of_getElem? {index i cost : Nat} {score : S} {cs : List Candidate}
    {ss : List (Scored S)} {c : Candidate}
    (hss : assessFrom s.registry s.scorer s.task index cs = .ok ss) (hc : cs[i]? = some c)
    (hscore : s.scorer c.program s.task = .ok score)
    (hcost : c.program.cost s.registry = .ok cost) : ⟨index + i, score, cost⟩ ∈ ss := by
  induction cs generalizing index i ss with
  | nil => cases hc
  | cons d cs ih =>
    cases i with
    | zero =>
      rw [List.getElem?_cons_zero, Option.some.injEq] at hc
      subst hc
      have hassess : assess s.registry s.scorer s.task index d.program =
          .ok ⟨index, score, cost⟩ := assess_eq_ok_iff.2 ⟨rfl, hscore, hcost⟩
      rcases assessFrom_cons_eq_ok_iff.1 hss with ⟨w, ws, hw, -, rfl⟩ | ⟨fault, hfault, -⟩
      · obtain rfl := Except.ok.inj (hassess.symm.trans hw)
        exact List.mem_cons_self
      · cases hassess.symm.trans hfault
    | succ i =>
      rw [List.getElem?_cons_succ] at hc
      rw [show index + (i + 1) = index + 1 + i by omega]
      rcases assessFrom_cons_eq_ok_iff.1 hss with ⟨w, ws, -, hws, rfl⟩ | ⟨fault, -, -, hws⟩
      · exact List.mem_cons_of_mem _ (ih hws hc)
      · exact ih hws hc

/-- The scored places of a round are those of the candidates with a score and a cost. -/
theorem mem_scored_of_getElem? {i cost : Nat} {score : S} {cs : List Candidate}
    {ss : List (Scored S)} {c : Candidate} (hss : scored s cs = .ok ss) (hc : cs[i]? = some c)
    (hscore : s.scorer c.program s.task = .ok score)
    (hcost : c.program.cost s.registry = .ok cost) : ⟨i, score, cost⟩ ∈ ss := by
  have hmem : ⟨0 + i, score, cost⟩ ∈ ss := mem_assessFrom_of_getElem? hss hc hscore hcost
  rwa [Nat.zero_add] at hmem

variable {cs : List Candidate} {ss : List (Scored S)}

/-- A candidate with a score and a cost is among the scored ones. -/
theorem exists_scored_of_rates (hss : scored s cs = .ok ss) {c : Candidate} {score : S}
    (hc : c ∈ cs) (h : Rates s c score) : ∃ w ∈ ss, w.score = score := by
  obtain ⟨hscore, cost, hcost⟩ := h
  obtain ⟨i, hi⟩ := List.mem_iff_getElem?.1 hc
  exact ⟨_, mem_scored_of_getElem? hss hi hscore hcost, rfl⟩

/-- What holds of all scores of candidates holds of all scored places, and the other way round. -/
theorem forall_rates_iff (hss : scored s cs = .ok ss) {P : S → Prop} :
    (∀ c ∈ cs, ∀ score, Rates s c score → P score) ↔ ∀ w ∈ ss, P w.score := by
  constructor
  · intro h w hw
    obtain ⟨c, hc, hscore, hcost⟩ := mem_scored hss hw
    exact h c (List.mem_of_getElem? hc) w.score ⟨hscore, w.cost, hcost⟩
  · intro h c hc score hrates
    obtain ⟨w, hw, rfl⟩ := exists_scored_of_rates hss hc hrates
    exact h w hw

variable [Scalar S] {x : Position S}

/-- The round moves to the candidate, which has this score. -/
structure Adopts (s : Setting S) (x : Position S) (c : Candidate) (score : S) : Prop where
  mem : c ∈ batch s x
  rates : Rates s c score
  moved : ∃ x', round s x = .ok (x', true) ∧ x'.current = c.program ∧ x'.score = score ∧
    x'.edits = x.edits ++ [c.edit]

variable (hss : scored s (batch s x) = .ok ss)
include hss

/-- A round adopts its best candidate when that beats the current score. -/
theorem adopts_of_best {w : Scored S} (hbest : best? ss = some w)
    (hlt : x.score + Scalar.tolerance < w.score) :
    ∃ c, (batch s x)[w.index]? = some c ∧ Adopts s x c w.score ∧
      round s x = .ok (move (record x (batch s x) ss) c w.score, true) := by
  obtain ⟨c, hc, hscore, hcost⟩ := mem_scored hss (mem_of_best? hbest)
  have hwinner : winner? x (batch s x) ss = some (c, w.score) := by
    simp only [winner?, hbest, if_pos hlt, hc, Option.map_some]
  have hround := round_eq_ok_iff.2 ⟨ss, hss, .inl ⟨c, w.score, hwinner, rfl, rfl⟩⟩
  exact ⟨c, hc, ⟨List.mem_of_getElem? hc, ⟨hscore, w.cost, hcost⟩, _, hround, rfl, rfl, rfl⟩,
    hround⟩

/-- A round without a best candidate that beats the current score stays. -/
theorem rests_of_best
    (h : ∀ w, best? ss = some w → ¬ x.score + Scalar.tolerance < w.score) :
    round s x = .ok (record x (batch s x) ss, false) := by
  refine round_eq_ok_iff.2 ⟨ss, hss, .inr ⟨?_, rfl, rfl⟩⟩
  rw [winner?]
  cases hbest : best? ss with
  | none => rfl
  | some w => exact if_neg (h w hbest)

/-- A round that moves adopts its best candidate. -/
theorem best_of_moved {x' : Position S} (h : round s x = .ok (x', true)) :
    ∃ w, best? ss = some w ∧ x.score + Scalar.tolerance < w.score := by
  by_contra hnone
  rw [rests_of_best hss fun w hw hlt => hnone ⟨w, hw, hlt⟩] at h
  cases h

end Rates

/-- There is a best one of a list that is not empty. -/
theorem exists_best? {S : Type} [Scalar S] {ss : List (Scored S)} (h : ss ≠ []) :
    ∃ w, best? ss = some w := by
  cases ss with
  | nil => exact absurd rfl h
  | cons s ss => exact ⟨_, rfl⟩

/-! ## Comparing exact scores -/

/-- With exact scores, one exceeds the other when it is higher by more than the tolerance. -/
theorem exceeds_iff {a b : Rat} : Scalar.exceeds a b = true ↔ b + Scalar.tolerance < a := by
  rw [Scalar.exceeds, decide_eq_true_iff, lt_sub_iff_add_lt, add_comm]

/-- When the first one is better: its score is higher by more than the tolerance, or it is not
lower by more than that and the first one is cheaper or, at the same cost, earlier. -/
theorem better_iff {a b : Scored Rat} :
    better a b = true ↔ b.score + Scalar.tolerance < a.score ∨
      (¬ a.score + Scalar.tolerance < b.score ∧
        (a.cost < b.cost ∨ a.cost = b.cost ∧ a.index < b.index)) := by
  have hpos := Scalar.tolerance_pos
  rw [better]
  by_cases hab : b.score + Scalar.tolerance < a.score
  · rw [if_pos (exceeds_iff.2 hab)]
    exact iff_of_true rfl (Or.inl hab)
  · rw [if_neg (mt exceeds_iff.1 hab)]
    by_cases hba : a.score + Scalar.tolerance < b.score
    · rw [if_pos (exceeds_iff.2 hba)]
      exact iff_of_false (by simp) (by tauto)
    · rw [if_neg (mt exceeds_iff.1 hba)]
      by_cases hcost : a.cost = b.cost
      · rw [if_pos hcost, decide_eq_true_iff]
        constructor
        · exact fun hindex => Or.inr ⟨hba, Or.inr ⟨hcost, hindex⟩⟩
        · rintro (h | ⟨-, h | h⟩)
          · exact absurd h hab
          · omega
          · exact h.2
      · rw [if_neg hcost, decide_eq_true_iff]
        constructor
        · exact fun hlt => Or.inr ⟨hba, Or.inl hlt⟩
        · rintro (h | ⟨-, h | h⟩)
          · exact absurd h hab
          · exact h
          · exact absurd h.1 hcost

/-- Choosing between two loses at most the tolerance. -/
theorem choose_within (best next : Scored Rat) :
    best.score ≤ (choose best next).score + Scalar.tolerance ∧
      next.score ≤ (choose best next).score + Scalar.tolerance := by
  have hpos := Scalar.tolerance_pos
  rw [choose]
  by_cases h : better next best = true
  · rw [if_pos h]
    rcases better_iff.1 h with hlt | ⟨hge, -⟩
    · constructor <;> linarith
    · constructor <;> linarith
  · rw [if_neg h]
    have hle : ¬ best.score + Scalar.tolerance < next.score :=
      fun hlt => h (better_iff.2 (Or.inl hlt))
    constructor <;> linarith

/-- Choosing along a list loses at most the tolerance with every comparison. -/
theorem foldl_choose_within (best : Scored Rat) (ss : List (Scored Rat)) :
    ∀ d ∈ best :: ss, d.score ≤ (ss.foldl choose best).score + ss.length * Scalar.tolerance := by
  have hpos := Scalar.tolerance_pos
  induction ss generalizing best with
  | nil => simp
  | cons next ss ih =>
    obtain ⟨hbest, hnext⟩ := choose_within best next
    have hchosen := ih (choose best next) _ List.mem_cons_self
    rw [List.foldl_cons, List.length_cons, Nat.cast_succ, add_mul, one_mul]
    intro d hd
    rcases List.mem_cons.1 hd with rfl | hd
    · linarith
    rcases List.mem_cons.1 hd with rfl | hd
    · linarith
    · have hlater := ih (choose best next) d (List.mem_cons_of_mem _ hd)
      linarith

/-- Of two scores that are the highest one or lower by more than the tolerance, the highest one is
chosen. -/
theorem choose_score_of_isolated {best next : Scored Rat} {top : Rat}
    (hbest : best.score = top ∨ best.score + Scalar.tolerance < top)
    (hnext : next.score = top ∨ next.score + Scalar.tolerance < top)
    (htop : best.score = top ∨ next.score = top) : (choose best next).score = top := by
  have hpos := Scalar.tolerance_pos
  rw [choose]
  by_cases h : better next best = true
  · rw [if_pos h]
    rcases better_iff.1 h with hlt | ⟨hge, -⟩
    · rcases hnext with heq | hlow
      · exact heq
      · rcases htop with heq | heq <;> linarith
    · rcases hnext with heq | hlow
      · exact heq
      · rcases htop with heq | heq
        · exact absurd (heq ▸ hlow) hge
        · exact heq
  · rw [if_neg h]
    rcases hbest with heq | hlow
    · exact heq
    · -- a low best score loses against the highest one
      have heq := htop.resolve_left (by linarith)
      exact absurd (better_iff.2 (Or.inl (heq ▸ hlow))) h

/-- Choosing along a list finds the highest score when no other one lies within the tolerance. -/
theorem foldl_choose_score_of_isolated {best : Scored Rat} {ss : List (Scored Rat)} {top : Rat}
    (hlow : ∀ d ∈ best :: ss, d.score = top ∨ d.score + Scalar.tolerance < top)
    (htop : ∃ d ∈ best :: ss, d.score = top) : (ss.foldl choose best).score = top := by
  induction ss generalizing best with
  | nil =>
    obtain ⟨d, hd, heq⟩ := htop
    rw [List.mem_singleton] at hd
    rw [List.foldl_nil, ← hd, heq]
  | cons next ss ih =>
    obtain ⟨hbest, hnext, hrest⟩ : (best.score = top ∨ best.score + Scalar.tolerance < top) ∧
        (next.score = top ∨ next.score + Scalar.tolerance < top) ∧
        ∀ d ∈ ss, d.score = top ∨ d.score + Scalar.tolerance < top := by
      simpa only [List.forall_mem_cons] using hlow
    rw [List.foldl_cons]
    have hchosen : (choose best next).score = top ∨
        (choose best next).score + Scalar.tolerance < top := by
      rcases choose_eq best next with h | h <;> rw [h] <;> assumption
    refine ih (List.forall_mem_cons.2 ⟨hchosen, hrest⟩) ?_
    obtain ⟨d, hd, heq⟩ := htop
    rcases List.mem_cons.1 hd with rfl | hd
    · exact ⟨_, List.mem_cons_self, choose_score_of_isolated hbest hnext (Or.inl heq)⟩
    rcases List.mem_cons.1 hd with rfl | hd
    · exact ⟨_, List.mem_cons_self, choose_score_of_isolated hbest hnext (Or.inr heq)⟩
    · exact ⟨d, List.mem_cons_of_mem _ hd, heq⟩

/-- The best of a list has the highest score when no other one lies within the tolerance of it. -/
theorem best?_score_of_isolated {ss : List (Scored Rat)} {w : Scored Rat} {top : Rat}
    (hbest : best? ss = some w)
    (hlow : ∀ d ∈ ss, d.score = top ∨ d.score + Scalar.tolerance < top)
    (htop : ∃ d ∈ ss, d.score = top) : w.score = top := by
  cases ss with
  | nil => cases hbest
  | cons s ss =>
    rw [best?, Option.some.injEq] at hbest
    rw [← hbest]
    exact foldl_choose_score_of_isolated hlow htop

/-- The best of a list lies below none of it by more than the tolerance for each of the others. -/
theorem best?_within {ss : List (Scored Rat)} {w d : Scored Rat} (hbest : best? ss = some w)
    (hd : d ∈ ss) : d.score ≤ w.score + (ss.length - 1 : Nat) * Scalar.tolerance := by
  cases ss with
  | nil => cases hbest
  | cons s ss =>
    rw [best?, Option.some.injEq] at hbest
    rw [← hbest]
    exact foldl_choose_within s ss d hd

/-! ## What a round finds -/

/-- A round adopts a candidate of the highest score when this beats the current one and no other
score lies within the tolerance of it. -/
theorem adopts_of_isolated {s : Setting Rat} {x : Position Rat} {ss : List (Scored Rat)}
    (hss : scored s (batch s x) = .ok ss) {c : Candidate} {top : Rat}
    (hc : c ∈ batch s x) (hrates : Rates s c top) (hlt : x.score + Scalar.tolerance < top)
    (hlow : ∀ d ∈ batch s x, ∀ score, Rates s d score →
      score = top ∨ score + Scalar.tolerance < top) : ∃ d, Adopts s x d top := by
  obtain ⟨w, hw, heq⟩ := exists_scored_of_rates hss hc hrates
  obtain ⟨best, hbest⟩ := exists_best? (List.ne_nil_of_mem hw)
  have htop := best?_score_of_isolated hbest ((forall_rates_iff hss).1 hlow) ⟨w, hw, heq⟩
  rw [← htop] at hlt ⊢
  obtain ⟨d, -, hadopts, -⟩ := adopts_of_best hss hbest hlt
  exact ⟨d, hadopts⟩

/-- **When a round finds its best candidate.**  With exact scores, in every position: the round
scores its candidates unless assessing one of them is a breach.  Then, if one of the candidates
beats the current score by more than the tolerance, and no other score lies within the tolerance of
this one or above it, the round adopts a candidate of this very score.  Whatever the scores are, the
round adopts a candidate if one of them beats the current score by more than as many tolerances as
there are scored candidates, and the adopted one lies below no other by more than one tolerance for
each of the others. -/
theorem round_adopts_best (s : Setting Rat) (x : Position Rat) :
    ((∃ ss, scored s (batch s x) = .ok ss) ↔
      ∀ c ∈ batch s x, ¬ Breaks s.registry s.scorer s.task c.program) ∧
    ∀ ss, scored s (batch s x) = .ok ss →
      (∀ c ∈ batch s x, ∀ top, Rates s c top → x.score + Scalar.tolerance < top →
        (∀ d ∈ batch s x, ∀ score, Rates s d score →
          score = top ∨ score + Scalar.tolerance < top) → ∃ d, Adopts s x d top) ∧
      (∀ c ∈ batch s x, ∀ score, Rates s c score →
        x.score + ss.length * Scalar.tolerance < score → ∃ d score', Adopts s x d score') ∧
      ∀ d score', Adopts s x d score' → ∀ c ∈ batch s x, ∀ score, Rates s c score →
        score ≤ score' + (ss.length - 1 : Nat) * Scalar.tolerance := by
  refine ⟨exists_assessFrom_iff 0, fun ss hss =>
    ⟨fun c hc top hrates hlt hlow => adopts_of_isolated hss hc hrates hlt hlow,
      fun c hc score hrates hlt => ?_, ?_⟩⟩
  · obtain ⟨d, hd, rfl⟩ := exists_scored_of_rates hss hc hrates
    obtain ⟨w, hbest⟩ := exists_best? (List.ne_nil_of_mem hd)
    have hw := best?_within hbest hd
    -- one tolerance is left over for the comparison with the current score
    have hlength : (ss.length - 1 : Nat) + (1 : Rat) = ss.length := by
      rw [← Nat.cast_succ, Nat.succ_eq_add_one,
        Nat.sub_add_cancel (List.length_pos_of_mem hd)]
    rw [← hlength, add_mul, one_mul] at hlt
    obtain ⟨c', -, hadopts, -⟩ := adopts_of_best hss hbest (by linarith)
    exact ⟨c', w.score, hadopts⟩
  · intro d score' hadopts
    obtain ⟨x', hround, -, hscore, -⟩ := hadopts.moved
    obtain ⟨w, hbest, hlt⟩ := best_of_moved hss hround
    obtain ⟨c', -, -, hround'⟩ := adopts_of_best hss hbest hlt
    obtain rfl := (Prod.mk.inj (Except.ok.inj (hround.symm.trans hround'))).1
    rw [← hscore]
    exact (forall_rates_iff hss).2 fun e he => best?_within hbest he

/-- The setting of a search for the quarter turn that tries four candidates a round. -/
def quarterTurnSetting : Setting Rat :=
  setting .standard (Program.score .standard) ⟨1, true, true, 4⟩ .quarterTurn []

/-- The first round for the quarter turn: no other score comes near that of the turned grids. -/
theorem round_adopts_best_quarterTurn :
    (∃ c ∈ batch quarterTurnSetting (start .identity 0), Rates quarterTurnSetting c 100) ∧
      (∀ d ∈ batch quarterTurnSetting (start .identity 0), ∀ score,
        Rates quarterTurnSetting d score → score = 100 ∨ score + Scalar.tolerance < 100) ∧
      ∃ d, Adopts quarterTurnSetting (start .identity 0) d 100 := by
  have hscored : (scored quarterTurnSetting (batch quarterTurnSetting
      (start .identity 0))).toOption.map (fun ss => decide (∀ w ∈ ss,
        w.score = 100 ∨ w.score + Scalar.tolerance < 100)) = some true := by decide +kernel
  obtain ⟨ss, hss, hscores⟩ := exists_ok_of_map hscored
  have hlow : ∀ d ∈ batch quarterTurnSetting (start .identity 0), ∀ score,
      Rates quarterTurnSetting d score → score = 100 ∨ score + Scalar.tolerance < 100 :=
    (forall_rates_iff hss).2 (of_decide_eq_true hscores)
  have hmem : ⟨.swap [] "identity" "rotate90", .call "rotate90" []⟩ ∈
      batch quarterTurnSetting (start .identity 0) := by decide +kernel
  have hscore : quarterTurnSetting.scorer (.call "rotate90" []) quarterTurnSetting.task =
      .ok 100 := by
    obtain ⟨score, hscore, rfl⟩ : ∃ score, quarterTurnSetting.scorer (.call "rotate90" [])
        quarterTurnSetting.task = .ok score ∧ score = 100 := exists_ok_of_map (by decide +kernel)
    exact hscore
  have hrates : Rates quarterTurnSetting
      ⟨.swap [] "identity" "rotate90", .call "rotate90" []⟩ 100 := ⟨hscore, 1, rfl⟩
  exact ⟨⟨_, hmem, hrates⟩, hlow,
    ((round_adopts_best _ _).2 ss hss).1 _ hmem 100 hrates (by decide +kernel) hlow⟩

/-! ## A chain of near ties -/

/-- Three steps of rising costs. -/
def threeSteps : Program :=
  .compose [.call "transpose" [], .call "crop_to_content" [], .call "crop_largest_object" []]

/-- A scorer for which each step is a little worse to keep than the one after it, within the
tolerance from one to the next. -/
def nearTies : Scorer Rat := fun p _ =>
  if p = threeSteps then .ok 50
  else if p = .compose [.call "crop_to_content" [], .call "crop_largest_object" []] then
    .ok (50 + 16e-10)
  else if p = .compose [.call "transpose" [], .call "crop_largest_object" []] then
    .ok (50 + 95e-11)
  else if p = .compose [.call "transpose" [], .call "crop_to_content" []] then .ok (50 + 4e-10)
  else .ok 10

/-- A round can stay although one of its candidates beats the current score by more than the
tolerance: a cheaper candidate within the tolerance of it wins, and a cheaper one still within the
tolerance of that, which beats the current score by less. -/
theorem not_adopts_nearTies :
    ¬ ∀ (reg : Registry) (scorer : Scorer Rat) (effort : Effort) (p : Program) (t : Task)
      (hints : List Hint) (first : Scored Rat), assess reg scorer t 0 p = .ok first →
      ∀ x ∈ roundStarts (setting reg scorer effort t hints) effort.maxRounds (start p first.score),
      ∀ c ∈ batch (setting reg scorer effort t hints) x,
      ∀ score, Rates (setting reg scorer effort t hints) c score →
        x.score + Scalar.tolerance < score →
        ∃ d score', Adopts (setting reg scorer effort t hints) x d score' ∧
          ∀ e ∈ batch (setting reg scorer effort t hints) x,
          ∀ top, Rates (setting reg scorer effort t hints) e top →
            top ≤ score' + Scalar.tolerance := by
  intro h
  have hmem : ⟨.remove [0], .compose [.call "crop_to_content" [], .call "crop_largest_object" []]⟩ ∈
      batch (setting .standard nearTies .standard .quarterTurn []) (start threeSteps 50) := by
    decide +kernel
  have hrests : (round (setting .standard nearTies .standard .quarterTurn [])
      (start threeSteps 50)).toOption.map Prod.snd = some false := by decide +kernel
  obtain ⟨d, score', hadopts, -⟩ := h .standard nearTies .standard threeSteps .quarterTurn []
    ⟨0, 50, 6⟩ rfl (start threeSteps 50) (mem_roundStarts_self (by decide +kernel)) _ hmem
    (50 + 16e-10) ⟨rfl, 5, rfl⟩ (by decide +kernel)
  obtain ⟨x', hround, -⟩ := hadopts.moved
  rw [hround] at hrests
  cases hrests

end Search

end GridRepair
