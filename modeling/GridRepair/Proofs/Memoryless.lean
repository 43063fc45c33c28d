/-
# Climbing without memory

A search remembers the programs it has tried, tries each of them once, and compares scored
candidates one after the other.  None of this changes where it goes: `Plain.search` climbs without
memory, looks at all candidates of the current program in every round, and takes the first one of
the highest score and, among these, of the lowest cost.  When scores are exact and no two different
ones lie within the tolerance of each other, and no round has more candidates than it may try, both
searches give the same result (`refine_eq_plain`), unless a total cost leaves its range on the way
(`not_refine_eq_plain_costly`).

The argument in short:

* `Remembered` : tried programs have no higher score than the current one, so none of them is worth
  as much as a program that beats it, and a round that moves keeps this (`Remembered.round`);
* `Leads.of_fresh` : hence the first best candidate among the untried ones is the first best one of
  all;
* `rank_le_of_best?`, `leads_of_best?` : comparing one after the other finds it, since without near
  ties the comparison is that of a linear order;
* `Course.plain` : so both climbs go through the same rounds;
* `exists_climb_iff_plain` : and the search ends in a breach when the climb without memory compares a
  candidate that is one.
-/
import Mathlib.Data.List.MinMax
import Mathlib.Data.Prod.Lex
import Mathlib.Order.OrderDual
import GridRepair.Proofs.Choice

namespace GridRepair

/-- The part of a result that does not depend on what a search remembers. -/
structure Refinement.Summary where
  success : Bool
  improved : Bool
  program : Program
  score : Rat
  edits : List Edit
  rounds : Nat

/-- The summary of a search. -/
def Refinement.summary (r : Refinement Rat) : Refinement.Summary :=
  ⟨r.success, r.improved, r.program, r.score, r.edits, r.rounds⟩

namespace Search

/-! ## Ratings -/

/-- The score and the cost of a program, if it has both. -/
def rating (s : Setting Rat) (p : Program) : Option (Rat × Nat) :=
  match s.scorer p s.task, p.cost s.registry with
  | .ok score, .ok cost => some (score, cost)
  | _, _ => none

/-- The worth of a rating: a higher score is worth more and, at the same score, a lower cost. -/
def worth (k : Rat × Nat) : Rat ×ₗ Natᵒᵈ := toLex (k.1, OrderDual.toDual k.2)

/-- Candidates with the ratings of their programs; those without a rating are dropped. -/
def rated (s : Setting Rat) (cs : List Candidate) : List (Candidate × Rat × Nat) :=
  cs.filterMap fun c => (rating s c.program).map fun k => (c, k)

/-! ## The climber without memory -/

namespace Plain

/-- The candidate with the highest score, then the lowest cost, then the earliest position, among
all candidates of a program that have a score and a cost. -/
def pick? (s : Setting Rat) (p : Program) : Option (Candidate × Rat × Nat) :=
  (rated s (Proposal.all s.registry s.order s.steps p)).argmax fun r => worth r.2

/-- What a climb leads to: the last program, its score, the edits on the way to it, and the number
of rounds. -/
structure Trail where
  program : Program
  score : Rat
  edits : List Edit
  rounds : Nat

/-- The trail with one round and one edit more at its beginning. -/
def Trail.after (edit : Edit) (trail : Trail) : Trail :=
  { trail with edits := edit :: trail.edits, rounds := trail.rounds + 1 }

/-- Climb for at most so many rounds, as long as the score is below the best possible one and the
best candidate beats it by more than the tolerance. -/
def climb (s : Setting Rat) : Nat → Program → Rat → Trail
  | 0, p, score => ⟨p, score, [], 0⟩
  | n + 1, p, score =>
    if score < Scalar.maxScore - Scalar.tolerance then
      match pick? s p with
      | some (c, score', _) =>
        if score + Scalar.tolerance < score' then (climb s n c.program score').after c.edit
        else ⟨p, score, [], 1⟩
      | none => ⟨p, score, [], 1⟩
    else ⟨p, score, [], 0⟩

/-- The programs whose candidates such a climb compares, round after round. -/
def bases (s : Setting Rat) : Nat → Program → Rat → List Program
  | 0, _, _ => []
  | n + 1, p, score =>
    if score < Scalar.maxScore - Scalar.tolerance then
      p :: match pick? s p with
        | some (c, score', _) =>
          if score + Scalar.tolerance < score' then bases s n c.program score' else []
        | none => []
    else []

end Plain

/-- The summary of a climb without memory from a program of the given score. -/
def Plain.search (s : Setting Rat) (n : Nat) (p : Program) (score : Rat) : Refinement.Summary :=
  let trail := climb s n p score
  ⟨true, !trail.edits.isEmpty, trail.program, trail.score, trail.edits, trail.rounds⟩

variable {s : Setting Rat} {x : Position Rat}

/-- A rating is the score and the cost. -/
theorem rating_eq_some_iff {p : Program} {k : Rat × Nat} :
    rating s p = some k ↔ s.scorer p s.task = .ok k.1 ∧ p.cost s.registry = .ok k.2 := by
  obtain ⟨score, cost⟩ := k
  rw [rating]
  cases s.scorer p s.task <;> cases p.cost s.registry <;> simp

/-- A rated candidate is one of the list, with the rating of its program. -/
theorem mem_rated {cs : List Candidate} {c : Candidate} {k : Rat × Nat} :
    (c, k) ∈ rated s cs ↔ c ∈ cs ∧ rating s c.program = some k := by
  simp only [rated, List.mem_filterMap, Option.map_eq_some_iff, Prod.mk.injEq]
  constructor
  · rintro ⟨d, hd, j, hj, rfl, rfl⟩
    exact ⟨hd, hj⟩
  · rintro ⟨hc, hk⟩
    exact ⟨c, hc, k, hk, rfl, rfl⟩

/-- A rating of a higher score is worth more. -/
theorem worth_lt_of_score_lt {j k : Rat × Nat} (h : j.1 < k.1) : worth j < worth k :=
  Prod.Lex.toLex_lt_toLex.2 (Or.inl h)

/-! ## The first best candidate -/

/-- The candidate is the first one of the highest worth in the list, and has this rating. -/
def Leads (s : Setting Rat) (cs : List Candidate) (c : Candidate) (k : Rat × Nat) : Prop :=
  rating s c.program = some k ∧ ∃ before after, cs = before ++ c :: after ∧
    (∀ d ∈ before, ∀ j, rating s d.program = some j → worth j < worth k) ∧
    ∀ d ∈ after, ∀ j, rating s d.program = some j → worth j ≤ worth k

/-- The first maximum of a list is worth more than what stands before it. -/
theorem argmax_append_cons {α β : Type} [LinearOrder β] {f : α → β} {before after : List α}
    {m : α} (hbefore : ∀ d ∈ before, f d < f m) (hafter : ∀ d ∈ after, f d ≤ f m) :
    (before ++ m :: after).argmax f = some m := by
  induction before with
  | nil =>
    rw [List.nil_append, List.argmax_cons]
    cases h : after.argmax f with
    | none => rfl
    | some c => exact if_neg (not_lt.2 (hafter c (List.argmax_mem h)))
  | cons d before ih =>
    obtain ⟨hd, hrest⟩ := List.forall_mem_cons.1 hbefore
    rw [List.cons_append, List.argmax_cons, ih hrest]
    exact if_pos hd

/-- The first best candidate is the one that is picked among the rated ones. -/
theorem Leads.argmax_eq {cs : List Candidate} {c : Candidate} {k : Rat × Nat}
    (h : Leads s cs c k) : ((rated s cs).argmax fun r => worth r.2) = some (c, k) := by
  obtain ⟨hk, before, after, rfl, hbefore, hafter⟩ := h
  have hsplit : rated s (before ++ c :: after) = rated s before ++ (c, k) :: rated s after := by
    rw [rated, List.filterMap_append, List.filterMap_cons, hk]
    rfl
  rw [hsplit]
  refine argmax_append_cons ?_ ?_
  · rintro ⟨d, j⟩ hd
    obtain ⟨hmem, hj⟩ := mem_rated.1 hd
    exact hbefore d hmem j hj
  · rintro ⟨d, j⟩ hd
    obtain ⟨hmem, hj⟩ := mem_rated.1 hd
    exact hafter d hmem j hj

/-- Every program of a list was seen, or is that of a fresh candidate. -/
theorem mem_seen_or_fresh {seen : List Program} {cs : List Candidate} {c : Candidate}
    (h : c ∈ cs) : c.program ∈ seen ∨ ∃ d ∈ fresh seen cs, d.program = c.program := by
  induction cs generalizing seen with
  | nil => cases h
  | cons d cs ih =>
    rw [fresh]
    by_cases hd : d.program ∈ seen
    · rw [if_pos hd]
      rcases List.mem_cons.1 h with rfl | h
      · exact Or.inl hd
      · exact ih h
    · rw [if_neg hd]
      rcases List.mem_cons.1 h with rfl | h
      · exact Or.inr ⟨c, List.mem_cons_self, rfl⟩
      have hrest : c.program ∈ d.program :: seen ∨
          ∃ e ∈ fresh (d.program :: seen) cs, e.program = c.program := ih h
      rcases hrest with hseen | ⟨e, he, heq⟩
      · rcases List.mem_cons.1 hseen with heq | hseen
        · exact Or.inr ⟨d, List.mem_cons_self, heq.symm⟩
        · exact Or.inl hseen
      · exact Or.inr ⟨e, List.mem_cons_of_mem _ he, heq⟩

/-- The first best one of the fresh candidates is the first best one of all, when what was seen is
worth less. -/
theorem Leads.of_fresh {seen : List Program} {cs : List Candidate} {c : Candidate} {k : Rat × Nat}
    (h : Leads s (fresh seen cs) c k)
    (hseen : ∀ q ∈ seen, ∀ j, rating s q = some j → worth j < worth k) : Leads s cs c k := by
  induction cs generalizing seen with
  | nil => exact h
  | cons d cs ih =>
    obtain ⟨hk, before, after, hsplit, hbefore, hafter⟩ := h
    -- a first element that is worth less stands before the leader of the rest
    have hcons : (∀ j, rating s d.program = some j → worth j < worth k) → Leads s cs c k →
        Leads s (d :: cs) c k := by
      rintro hd ⟨-, before', after', rfl, hbefore', hafter'⟩
      exact ⟨hk, d :: before', after', rfl, List.forall_mem_cons.2 ⟨hd, hbefore'⟩, hafter'⟩
    rw [fresh] at hsplit
    by_cases hd : d.program ∈ seen
    · rw [if_pos hd] at hsplit
      exact hcons (hseen _ hd) (ih ⟨hk, before, after, hsplit, hbefore, hafter⟩ hseen)
    · rw [if_neg hd] at hsplit
      cases before with
      | nil =>
        -- the leader comes first, and every later program is among the fresh ones or seen
        rw [List.nil_append, List.cons.injEq] at hsplit
        obtain ⟨rfl, rfl⟩ := hsplit
        refine ⟨hk, [], cs, rfl, by simp, fun e he j hj => ?_⟩
        have hlater : e.program ∈ d.program :: seen ∨
            ∃ f ∈ fresh (d.program :: seen) cs, f.program = e.program := mem_seen_or_fresh he
        rcases hlater with hmem | ⟨f, hf, heq⟩
        · rcases List.mem_cons.1 hmem with heq | hmem
          · rw [heq, hk, Option.some.injEq] at hj
            rw [hj]
          · exact le_of_lt (hseen _ hmem j hj)
        · exact hafter f hf j (heq ▸ hj)
      | cons b before =>
        rw [List.cons_append, List.cons.injEq] at hsplit
        obtain ⟨rfl, hsplit⟩ := hsplit
        obtain ⟨hd', hbefore⟩ := List.forall_mem_cons.1 hbefore
        refine hcons hd' (ih ⟨hk, before, after, hsplit, hbefore, hafter⟩ ?_)
        exact List.forall_mem_cons.2 ⟨hd', hseen⟩

/-! ## Comparing one after the other -/

/-- Two scores are equal or differ by more than the tolerance. -/
def Apart (a b : Rat) : Prop := a = b ∨ Scalar.tolerance < |a - b|

/-- No two different scores of the scorer on the task lie within the tolerance of each other. -/
def Separated (scorer : Scorer Rat) (t : Task) : Prop :=
  ∀ p q a b, scorer p t = .ok a → scorer q t = .ok b → Apart a b

/-- The rank of a scored place: its worth and, at the same worth, an earlier place. -/
def rank (w : Scored Rat) : (Rat ×ₗ Natᵒᵈ) ×ₗ Natᵒᵈ :=
  toLex (worth (w.score, w.cost), OrderDual.toDual w.index)

/-- A rank is higher by the score, then by a lower cost, then by an earlier place. -/
theorem rank_lt_iff {a b : Scored Rat} :
    rank b < rank a ↔ b.score < a.score ∨ b.score = a.score ∧
      (a.cost < b.cost ∨ a.cost = b.cost ∧ a.index < b.index) := by
  simp only [rank, worth, Prod.Lex.toLex_lt_toLex, OrderDual.toDual_lt_toDual,
    EmbeddingLike.apply_eq_iff_eq, Prod.mk.injEq]
  constructor
  · rintro ((hlt | ⟨heq, hcost⟩) | ⟨⟨heq, hcost⟩, hindex⟩)
    · exact Or.inl hlt
    · exact Or.inr ⟨heq, Or.inl hcost⟩
    · exact Or.inr ⟨heq, Or.inr ⟨hcost.symm, hindex⟩⟩
  · rintro (hlt | ⟨heq, hcost | ⟨hcost, hindex⟩⟩)
    · exact Or.inl (Or.inl hlt)
    · exact Or.inl (Or.inr ⟨heq, hcost⟩)
    · exact Or.inr ⟨⟨heq, hcost.symm⟩, hindex⟩

/-- Without near ties, the better one is that of the higher rank. -/
theorem better_iff_rank_lt {a b : Scored Rat} (h : Apart a.score b.score) :
    better a b = true ↔ rank b < rank a := by
  have hpos := Scalar.tolerance_pos
  -- scores that are apart are compared exactly
  have hlt : b.score + Scalar.tolerance < a.score ↔ b.score < a.score := by
    rcases h with heq | hfar
    · constructor <;> intro <;> linarith
    · rcases lt_abs.1 hfar with hab | hba <;> constructor <;> intro <;> linarith
  have hge : ¬ a.score + Scalar.tolerance < b.score ↔ b.score ≤ a.score := by
    rw [not_lt]
    rcases h with heq | hfar
    · constructor <;> intro <;> linarith
    · rcases lt_abs.1 hfar with hab | hba <;> constructor <;> intro <;> linarith
  rw [rank_lt_iff, better_iff, hlt, hge, le_iff_lt_or_eq]
  tauto

/-- Choosing along a list without near ties finds the highest rank. -/
theorem rank_le_foldl_choose {best : Scored Rat} {ss : List (Scored Rat)}
    (hapart : ∀ a ∈ best :: ss, ∀ b ∈ best :: ss, Apart a.score b.score) :
    ∀ d ∈ best :: ss, rank d ≤ rank (ss.foldl choose best) := by
  induction ss generalizing best with
  | nil => simp
  | cons next ss ih =>
    have hnext : next ∈ best :: next :: ss := List.mem_cons_of_mem _ List.mem_cons_self
    have hchosen : rank best ≤ rank (choose best next) ∧ rank next ≤ rank (choose best next) := by
      have hbetter := better_iff_rank_lt (hapart next hnext best List.mem_cons_self)
      rw [choose]
      by_cases h : better next best = true
      · rw [if_pos h]
        exact ⟨le_of_lt (hbetter.1 h), le_refl _⟩
      · rw [if_neg h]
        exact ⟨le_refl _, not_lt.1 (mt hbetter.2 h)⟩
    have hsub : ∀ a ∈ choose best next :: ss, a ∈ best :: next :: ss := by
      intro a ha
      rcases List.mem_cons.1 ha with rfl | ha
      · rcases choose_eq best next with h | h <;> rw [h]
        · exact List.mem_cons_self
        · exact hnext
      · exact List.mem_cons_of_mem _ (List.mem_cons_of_mem _ ha)
    have hrest := ih fun a ha b hb => hapart a (hsub a ha) b (hsub b hb)
    have hfound := hrest _ List.mem_cons_self
    rw [List.foldl_cons]
    intro d hd
    rcases List.mem_cons.1 hd with rfl | hd
    · exact hchosen.1.trans hfound
    rcases List.mem_cons.1 hd with rfl | hd
    · exact hchosen.2.trans hfound
    · exact hrest d (List.mem_cons_of_mem _ hd)

/-- Without near ties, the best one of a round has the highest rank. -/
theorem rank_le_of_best? (hsep : Separated s.scorer s.task) {cs : List Candidate}
    {ss : List (Scored Rat)} (hss : scored s cs = .ok ss) {w d : Scored Rat}
    (hbest : best? ss = some w) (hd : d ∈ ss) : rank d ≤ rank w := by
  have hapart : ∀ a ∈ ss, ∀ b ∈ ss, Apart a.score b.score := by
    intro a ha b hb
    obtain ⟨c, -, hscore, -⟩ := mem_scored hss ha
    obtain ⟨c', -, hscore', -⟩ := mem_scored hss hb
    exact hsep _ _ _ _ hscore hscore'
  cases ss with
  | nil => cases hd
  | cons v ss =>
    rw [best?, Option.some.injEq] at hbest
    rw [← hbest]
    exact rank_le_foldl_choose hapart d hd

/-- What has no higher rank has no higher score. -/
theorem score_le_of_rank_le {d w : Scored Rat} (h : rank d ≤ rank w) : d.score ≤ w.score := by
  by_contra hlt
  exact absurd (rank_lt_iff.2 (Or.inl (not_le.1 hlt))) (not_lt.2 h)

/-- A rated candidate is scored under its place. -/
theorem mem_scored_of_rating {cs : List Candidate} {ss : List (Scored Rat)}
    (hss : scored s cs = .ok ss) {i : Nat} {d : Candidate} {j : Rat × Nat} (hd : cs[i]? = some d)
    (hj : rating s d.program = some j) : ⟨i, j.1, j.2⟩ ∈ ss :=
  mem_scored_of_getElem? hss hd (rating_eq_some_iff.1 hj).1 (rating_eq_some_iff.1 hj).2

/-- Without near ties, the best one of a round is its first best candidate. -/
theorem leads_of_best? (hsep : Separated s.scorer s.task) {cs : List Candidate}
    {ss : List (Scored Rat)} (hss : scored s cs = .ok ss) {w : Scored Rat} {c : Candidate}
    (hbest : best? ss = some w) (hc : cs[w.index]? = some c) :
    Leads s cs c (w.score, w.cost) := by
  obtain ⟨c', hc', hscore, hcost⟩ := mem_scored hss (mem_of_best? hbest)
  rw [hc, Option.some.injEq] at hc'
  subst hc'
  obtain ⟨hi, rfl⟩ := List.getElem?_eq_some_iff.1 hc
  refine ⟨rating_eq_some_iff.2 ⟨hscore, hcost⟩, cs.take w.index, cs.drop (w.index + 1), ?_, ?_, ?_⟩
  · rw [List.getElem_cons_drop, List.take_append_drop]
  · intro d hd j hj
    obtain ⟨i, hlt, rfl⟩ := List.mem_take_iff_getElem.1 hd
    have hle := rank_le_of_best? hsep hss hbest
      (mem_scored_of_rating hss (List.getElem?_eq_getElem (by omega)) hj)
    -- an earlier place of the same worth would have the higher rank
    rcases Prod.Lex.toLex_le_toLex.1 hle with hworth | ⟨-, hindex⟩
    · exact hworth
    · have hindex' : w.index ≤ i := hindex
      omega
  · intro d hd j hj
    obtain ⟨i, hlt, rfl⟩ := List.mem_drop_iff_getElem.1 hd
    have hle := rank_le_of_best? hsep hss hbest
      (mem_scored_of_rating hss (List.getElem?_eq_getElem (by omega)) hj)
    rcases Prod.Lex.toLex_le_toLex.1 hle with hworth | ⟨hworth, -⟩
    · exact le_of_lt hworth
    · exact le_of_eq hworth

/-! ## Rounds -/

/-- The candidates of the next round, were there no limit on their number. -/
def offers (s : Setting Rat) (x : Position Rat) : List Candidate :=
  fresh x.visited (Proposal.all s.registry s.order s.steps x.current)

/-- A round that may try all its candidates tries them. -/
theorem batch_eq_offers (hcap : (offers s x).length ≤ s.maxCandidates) :
    batch s x = offers s x :=
  List.take_of_length_le hcap

/-- The programs tried so far have no higher score than the current one. -/
def Remembered (s : Setting Rat) (x : Position Rat) : Prop :=
  ∀ q ∈ x.visited, ∀ k, rating s q = some k → k.1 ≤ x.score

/-- A program that was tried is worth less than one that beats the current score. -/
theorem Remembered.worth_lt (h : Remembered s x) {q : Program} (hq : q ∈ x.visited)
    {j k : Rat × Nat} (hj : rating s q = some j) (hlt : x.score + Scalar.tolerance < k.1) :
    worth j < worth k := by
  have hpos := Scalar.tolerance_pos
  have hle := h q hq j hj
  exact worth_lt_of_score_lt (by linarith)

/-- A round that moves leaves programs behind that have no higher score than its winner. -/
theorem Remembered.round (hsep : Separated s.scorer s.task) (h : Remembered s x)
    {x' : Position Rat} (hmove : Search.round s x = .ok (x', true)) : Remembered s x' := by
  have hpos := Scalar.tolerance_pos
  obtain ⟨ss, hss, -⟩ := round_eq_ok_iff.1 hmove
  obtain ⟨w, hbest, hlt⟩ := best_of_moved hss hmove
  obtain ⟨c, -, -, hround⟩ := adopts_of_best hss hbest hlt
  have hx' := (Prod.mk.inj (Except.ok.inj (hmove.symm.trans hround))).1
  have hscore : x'.score = w.score := by rw [hx', move]
  intro q hq k hk
  rw [hscore]
  rw [visited_round hmove] at hq
  rcases List.mem_append.1 hq with hq | hq
  · obtain ⟨d, hd, rfl⟩ := List.mem_map.1 hq
    obtain ⟨i, hi⟩ := List.mem_iff_getElem?.1 hd
    exact score_le_of_rank_le (rank_le_of_best? hsep hss hbest (mem_scored_of_rating hss hi hk))
  · have hle := h q hq k hk
    linarith

/-- Where a round moves, it adopts the pick among all candidates, which beats the current score. -/
theorem pick?_of_moved (hsep : Separated s.scorer s.task) (hseen : Remembered s x)
    (hcap : (offers s x).length ≤ s.maxCandidates) {x' : Position Rat}
    (hmove : round s x = .ok (x', true)) :
    ∃ c k, Plain.pick? s x.current = some (c, k) ∧ x.score + Scalar.tolerance < k.1 ∧
      x'.current = c.program ∧ x'.score = k.1 ∧ x'.edits = x.edits ++ [c.edit] := by
  obtain ⟨ss, hss, -⟩ := round_eq_ok_iff.1 hmove
  obtain ⟨w, hbest, hlt⟩ := best_of_moved hss hmove
  obtain ⟨c, hc, -, hround⟩ := adopts_of_best hss hbest hlt
  obtain rfl := (Prod.mk.inj (Except.ok.inj (hmove.symm.trans hround))).1
  have hleads : Leads s (batch s x) c (w.score, w.cost) := leads_of_best? hsep hss hbest hc
  rw [batch_eq_offers hcap] at hleads
  have hall : Leads s (Proposal.all s.registry s.order s.steps x.current) c (w.score, w.cost) :=
    hleads.of_fresh fun q hq j hj => hseen.worth_lt hq hj hlt
  exact ⟨c, _, hall.argmax_eq, hlt, rfl, rfl, rfl⟩

/-- Where a round does not move, no pick among all candidates beats the current score. -/
theorem pick?_of_rested (hsep : Separated s.scorer s.task) (hseen : Remembered s x)
    (hcap : (offers s x).length ≤ s.maxCandidates) {x' : Position Rat}
    (hrest : round s x = .ok (x', false)) {c : Candidate} {k : Rat × Nat}
    (hpick : Plain.pick? s x.current = some (c, k)) : ¬ x.score + Scalar.tolerance < k.1 := by
  intro hlt
  obtain ⟨ss, hss, -⟩ := round_eq_ok_iff.1 hrest
  obtain ⟨hc, hk⟩ := mem_rated.1 (List.argmax_mem hpick)
  have hfresh : c.program ∈ x.visited ∨ ∃ d ∈ offers s x, d.program = c.program :=
    mem_seen_or_fresh hc
  rcases hfresh with hvisited | ⟨d, hd, heq⟩
  · exact absurd (hseen.worth_lt hvisited hk hlt) (lt_irrefl _)
  · -- the program was tried in this very round, so the best of the round beats the score too
    rw [← batch_eq_offers hcap] at hd
    obtain ⟨i, hi⟩ := List.mem_iff_getElem?.1 hd
    have hmem := mem_scored_of_rating hss hi (heq ▸ hk)
    obtain ⟨w, hbest⟩ := exists_best? (List.ne_nil_of_mem hmem)
    have hle := score_le_of_rank_le (rank_le_of_best? hsep hss hbest hmem)
    obtain ⟨c', -, -, hround⟩ := adopts_of_best hss hbest (lt_of_lt_of_le hlt hle)
    cases hrest.symm.trans hround

/-! ## Climbs -/

/-- The trail leads from one position to the other. -/
structure Plain.Trail.Joins (trail : Plain.Trail) (x y : Position Rat) : Prop where
  program_eq : y.current = trail.program
  score_eq : y.score = trail.score
  edits_eq : y.edits = x.edits ++ trail.edits
  rounds_eq : y.rounds = x.rounds + trail.rounds

/-- A climb without memory that cannot move stays where it is. -/
theorem Plain.climb_of_rested {n : Nat} (hsep : Separated s.scorer s.task)
    (hseen : Remembered s x) (hcap : (offers s x).length ≤ s.maxCandidates)
    (hlt : x.score < Scalar.maxScore - Scalar.tolerance) {x' : Position Rat}
    (hrest : round s x = .ok (x', false)) :
    climb s (n + 1) x.current x.score = ⟨x.current, x.score, [], 1⟩ ∧
      bases s (n + 1) x.current x.score = [x.current] := by
  rw [climb, bases, if_pos hlt, if_pos hlt]
  cases hpick : pick? s x.current with
  | none => exact ⟨rfl, rfl⟩
  | some r =>
    have hlow := pick?_of_rested hsep hseen hcap hrest hpick
    exact ⟨if_neg hlow, congrArg _ (if_neg hlow)⟩

/-- A climb without memory goes on from its pick. -/
theorem Plain.climb_of_pick {n : Nat} {p : Program} {score : Rat} {c : Candidate} {k : Rat × Nat}
    (hlt : score < Scalar.maxScore - Scalar.tolerance) (hpick : pick? s p = some (c, k))
    (hbeats : score + Scalar.tolerance < k.1) :
    climb s (n + 1) p score = (climb s n c.program k.1).after c.edit ∧
      bases s (n + 1) p score = p :: bases s n c.program k.1 := by
  rw [climb, bases, if_pos hlt, if_pos hlt, hpick]
  exact ⟨if_pos hbeats, congrArg _ (if_pos hbeats)⟩

/-- A climb that remembers goes where the climb without memory goes. -/
theorem Course.plain {n : Nat} {x y : Position Rat} {ys : List (Position Rat)}
    (hsep : Separated s.scorer s.task) (h : Course s n x ys y) (hseen : Remembered s x)
    (hcap : ∀ z ∈ ys, (offers s z).length ≤ s.maxCandidates) :
    (Plain.climb s n x.current x.score).Joins x y := by
  induction h with
  | @stop n x hstop =>
    have hclimb : Plain.climb s n x.current x.score = ⟨x.current, x.score, [], 0⟩ := by
      cases n with
      | zero => rfl
      | succ n => rw [Plain.climb, if_neg (hstop.resolve_left (by omega))]
    rw [hclimb]
    exact ⟨rfl, rfl, (List.append_nil _).symm, rfl⟩
  | rest hlt hrest =>
    rw [(Plain.climb_of_rested hsep hseen (hcap _ List.mem_cons_self) hlt hrest).1]
    obtain ⟨ss, -, rfl⟩ := round_of_rested hrest
    exact ⟨rfl, rfl, (List.append_nil _).symm, rfl⟩
  | @move n x x' y ys hlt hmove _ ih =>
    obtain ⟨hfirst, hlater⟩ := List.forall_mem_cons.1 hcap
    obtain ⟨c, k, hpick, hbeats, hcurrent, hscore, hedits⟩ :=
      pick?_of_moved hsep hseen hfirst hmove
    have hafter := ih (hseen.round hsep hmove) hlater
    rw [hcurrent, hscore] at hafter
    rw [(Plain.climb_of_pick hlt hpick hbeats).1]
    refine ⟨hafter.program_eq, hafter.score_eq, ?_, ?_⟩
    · rw [hafter.edits_eq, hedits, List.append_assoc]
      rfl
    · rw [hafter.rounds_eq, rounds_round hmove, Nat.add_assoc, Nat.add_comm 1]
      rfl

/-! ## Breaches -/

/-- Assessing the programs tried so far was no breach. -/
def Unbroken (s : Setting Rat) (x : Position Rat) : Prop :=
  ∀ q ∈ x.visited, ¬ Breaks s.registry s.scorer s.task q

/-- After programs that are no breach, the untried candidates are none when all candidates are
none. -/
theorem Unbroken.forall_offers_iff (h : Unbroken s x) :
    (∀ c ∈ offers s x, ¬ Breaks s.registry s.scorer s.task c.program) ↔
      ∀ c ∈ Proposal.all s.registry s.order s.steps x.current,
        ¬ Breaks s.registry s.scorer s.task c.program := by
  constructor
  · intro hoffers c hc
    have hfresh : c.program ∈ x.visited ∨ ∃ d ∈ offers s x, d.program = c.program :=
      mem_seen_or_fresh hc
    rcases hfresh with hvisited | ⟨d, hd, heq⟩
    · exact h _ hvisited
    · exact heq ▸ hoffers d hd
  · exact fun hall c hc => hall c (mem_of_mem_fresh hc).1

/-- A round leaves programs behind whose assessment was no breach. -/
theorem Unbroken.round (h : Unbroken s x) {x' : Position Rat} {moved : Bool}
    (hround : Search.round s x = .ok (x', moved)) : Unbroken s x' := by
  intro q hq
  rw [visited_round hround] at hq
  rcases List.mem_append.1 hq with hq | hq
  · obtain ⟨c, hc, rfl⟩ := List.mem_map.1 hq
    exact exists_round_iff.1 ⟨_, hround⟩ c hc
  · exact h q hq

/-- A climb that remembers ends in a breach when the climb without memory comes across one. -/
theorem exists_climb_iff_plain (hsep : Separated s.scorer s.task) {n : Nat} {x : Position Rat}
    (hseen : Remembered s x) (hsound : Unbroken s x)
    (hcap : ∀ z ∈ roundStarts s n x, (offers s z).length ≤ s.maxCandidates) :
    (∃ y, climb s n x = .ok y) ↔
      ∀ q ∈ Plain.bases s n x.current x.score,
      ∀ c ∈ Proposal.all s.registry s.order s.steps q,
        ¬ Breaks s.registry s.scorer s.task c.program := by
  induction n generalizing x with
  | zero => exact iff_of_true ⟨x, rfl⟩ (List.forall_mem_nil _)
  | succ n ih =>
    by_cases hlt : x.score < Scalar.maxScore - Scalar.tolerance
    swap
    · rw [climb, if_neg hlt, Plain.bases, if_neg hlt]
      exact iff_of_true ⟨x, rfl⟩ (List.forall_mem_nil _)
    rw [roundStarts, if_pos hlt, List.forall_mem_cons] at hcap
    have hfirst : (∃ r, round s x = .ok r) ↔ ∀ c ∈ Proposal.all s.registry s.order s.steps
        x.current, ¬ Breaks s.registry s.scorer s.task c.program := by
      rw [exists_round_iff, batch_eq_offers hcap.1, hsound.forall_offers_iff]
    cases hround : round s x with
    | error fault =>
      -- the first round is a breach, and the climb without memory compares the same candidates
      refine iff_of_false ?_ fun hall => ?_
      · rintro ⟨y, hy⟩
        rw [climb, if_pos hlt, hround] at hy
        cases hy
      · have hmem : x.current ∈ Plain.bases s (n + 1) x.current x.score := by
          rw [Plain.bases, if_pos hlt]
          exact List.mem_cons_self
        obtain ⟨r, hr⟩ := hfirst.2 (hall _ hmem)
        cases hround.symm.trans hr
    | ok r =>
      obtain ⟨x', moved⟩ := r
      have hall := hfirst.1 ⟨_, hround⟩
      cases moved with
      | false =>
        rw [(Plain.climb_of_rested hsep hseen hcap.1 hlt hround).2, List.forall_mem_singleton]
        exact iff_of_true ⟨x', climb_succ_eq_ok_iff.2 (.inr ⟨hlt, .inl hround⟩)⟩ hall
      | true =>
        rw [hround] at hcap
        obtain ⟨c, k, hpick, hbeats, hcurrent, hscore, -⟩ :=
          pick?_of_moved hsep hseen hcap.1 hround
        have hafter := ih (hseen.round hsep hround) (hsound.round hround) hcap.2
        have hstep : climb s (n + 1) x = climb s n x' := by
          rw [climb, if_pos hlt, hround]
          rfl
        rw [hstep, hafter, hcurrent, hscore, (Plain.climb_of_pick hlt hpick hbeats).2,
          List.forall_mem_cons]
        exact (and_iff_right hall).symm

/-- A search that ended where a trail leads has the summary of the trail. -/
theorem Reached.summary_conclude {p : Program} {score : Rat} {y : Position Rat}
    (h : Reached s p score y) {trail : Plain.Trail} (hjoins : trail.Joins (start p score) y) :
    (conclude p score y).summary =
      ⟨true, !trail.edits.isEmpty, trail.program, trail.score, trail.edits, trail.rounds⟩ := by
  have hedits : y.edits = trail.edits := hjoins.edits_eq
  have hrounds : y.rounds = trail.rounds := by
    rw [hjoins.rounds_eq]
    exact Nat.zero_add _
  have himproved : (conclude p score y).improved = !y.edits.isEmpty := by
    rw [Bool.eq_iff_iff, h.improved_iff, Bool.not_eq_true', List.isEmpty_eq_false_iff]
  rw [Refinement.summary, himproved, h.program_eq, ← hedits, ← hrounds, ← hjoins.program_eq,
    ← hjoins.score_eq]
  rfl

/-- **Memory only saves work.**  With exact scores, no two different ones of which lie within the
tolerance of each other, and a first program that has a score and a cost: if no round has more
candidates than it may try, every result of a search has the summary of the climb without memory,
and there is a result unless that climb compares a candidate whose assessment is a breach. -/
theorem refine_eq_plain {reg : Registry} {scorer : Scorer Rat} {effort : Effort} {p : Program}
    {t : Task} {hints : List Hint} {score : Rat} {cost : Nat} (hscore : scorer p t = .ok score)
    (hcost : p.cost reg = .ok cost) (hsep : Separated scorer t)
    (hcap : ∀ x ∈ roundStarts (setting reg scorer effort t hints) effort.maxRounds (start p score),
      (offers (setting reg scorer effort t hints) x).length ≤ effort.maxCandidates) :
    (∀ r, refine reg scorer effort p t hints = .ok r →
      r.summary = Plain.search (setting reg scorer effort t hints) effort.maxRounds p score) ∧
    ((∃ r, refine reg scorer effort p t hints = .ok r) ↔
      ∀ q ∈ Plain.bases (setting reg scorer effort t hints) effort.maxRounds p score,
      ∀ c ∈ Proposal.all reg (order effort hints) (insertions reg effort t hints) q,
        ¬ Breaks reg scorer t c.program) := by
  have hseen : Remembered (setting reg scorer effort t hints) (start p score) := by
    intro q hq k hk
    rw [List.mem_singleton.1 hq] at hk
    have hsame : scorer p t = .ok k.1 := (rating_eq_some_iff.1 hk).1
    rw [hscore, Except.ok.injEq] at hsame
    exact le_of_eq hsame.symm
  have hsound : Unbroken (setting reg scorer effort t hints) (start p score) := by
    rintro q hq ⟨cause, hbreach⟩
    rw [List.mem_singleton.1 hq] at hbreach
    have hassess : assess reg scorer t 0 p = .ok ⟨0, score, cost⟩ :=
      assess_eq_ok_iff.2 ⟨rfl, hscore, hcost⟩
    cases hassess.symm.trans hbreach
  constructor
  · intro r hr
    rw [refine_of_score hscore hcost] at hr
    obtain ⟨y, hy, hr⟩ := bind_eq_ok.1 hr
    obtain rfl := pure_eq_ok.1 hr
    have hreached : Reached (setting reg scorer effort t hints) p score y :=
      (reached_start hscore hcost).climb hy
    exact hreached.summary_conclude ((course_climb hy).plain hsep hseen hcap)
  · have hclimb := exists_climb_iff_plain hsep hseen hsound hcap
    rw [refine_of_score hscore hcost]
    refine Iff.trans ⟨?_, ?_⟩ hclimb
    · rintro ⟨r, hr⟩
      obtain ⟨y, hy, -⟩ := bind_eq_ok.1 hr
      exact ⟨y, hy⟩
    · rintro ⟨y, hy⟩
      exact ⟨_, bind_eq_ok.2 ⟨y, hy, rfl⟩⟩

/-- Scores of a scorer that prefers longer programs are whole multiples of ten. -/
theorem separated_bySize (t : Task) : Separated bySize t := by
  have hten : ∀ p a, bySize p t = .ok a → ∃ n : Nat, a = 10 * n := by
    intro p a h
    rw [bySize] at h
    split at h
    · cases h
    · exact ⟨p.size, (Except.ok.inj h).symm⟩
  intro p q a b ha hb
  obtain ⟨m, rfl⟩ := hten p a ha
  obtain ⟨n, rfl⟩ := hten q b hb
  have hsmall : (Scalar.tolerance : Rat) < 10 := by decide +kernel
  rcases lt_trichotomy m n with hlt | rfl | hlt
  · have hnext : (m : Rat) + 1 ≤ n := by exact_mod_cast hlt
    exact Or.inr (lt_abs.2 (Or.inr (by linarith)))
  · exact Or.inl rfl
  · have hnext : (n : Rat) + 1 ≤ m := by exact_mod_cast hlt
    exact Or.inr (lt_abs.2 (Or.inl (by linarith)))

/-- Growing the identity for two rounds that may try all their candidates. -/
theorem refine_eq_plain_bySize :
    (∀ x ∈ roundStarts (setting .standard bySize ⟨2, true, true, 40⟩ .quarterTurn []) 2
        (start .identity 10),
      (offers (setting .standard bySize ⟨2, true, true, 40⟩ .quarterTurn []) x).length ≤ 40) ∧
      ∃ r, refine .standard bySize ⟨2, true, true, 40⟩ .identity .quarterTurn [] = .ok r ∧
        r.edits.length = 2 ∧
        r.summary = Plain.search (setting .standard bySize ⟨2, true, true, 40⟩ .quarterTurn []) 2
          .identity 10 := by
  have hcap : ∀ x ∈ roundStarts (setting .standard bySize ⟨2, true, true, 40⟩ .quarterTurn []) 2
      (start .identity 10), (offers (setting .standard bySize ⟨2, true, true, 40⟩
        .quarterTurn []) x).length ≤ 40 := by decide +kernel
  have hrun : (refine .standard bySize ⟨2, true, true, 40⟩ .identity .quarterTurn []).toOption.map
      (fun r => r.edits.length) = some 2 := by decide +kernel
  obtain ⟨r, hr, hedits⟩ := exists_ok_of_map hrun
  have hscore : bySize .identity .quarterTurn = .ok 10 := by
    obtain ⟨score, hscore, rfl⟩ : ∃ score, bySize .identity .quarterTurn = .ok score ∧
        score = 10 := exists_ok_of_map (by decide +kernel)
    exact hscore
  have hcost : Program.cost .standard .identity = .ok 0 := rfl
  exact ⟨hcap, r, hr, hedits, (refine_eq_plain hscore hcost (separated_bySize _) hcap).1 r hr⟩

/-- The catalogue together with a call that is as costly as can be. -/
def costlyRegistry : Registry :=
  Registry.standard.register ⟨"costly", maxCost, [], fun g _ => .ok (.grid g)⟩

/-- Not every search from a program with a score and a cost has a result: around a call that is as
costly as can be, the first candidate with a cost beyond the range ends the search. -/
theorem not_refine_eq_plain_costly :
    ¬ ∀ (reg : Registry) (scorer : Scorer Rat) (effort : Effort) (p : Program) (t : Task)
      (hints : List Hint) (score : Rat) (cost : Nat), scorer p t = .ok score →
      p.cost reg = .ok cost → Separated scorer t →
      (∀ x ∈ roundStarts (setting reg scorer effort t hints) effort.maxRounds (start p score),
        (offers (setting reg scorer effort t hints) x).length ≤ effort.maxCandidates) →
      ∃ r, refine reg scorer effort p t hints = .ok r ∧
        r.summary = Plain.search (setting reg scorer effort t hints) effort.maxRounds p score := by
  intro h
  have hseparated : Separated (fun _ _ => .ok 10) .quarterTurn := by
    rintro _ _ _ _ ⟨⟩ ⟨⟩
    exact .inl rfl
  obtain ⟨r, hr, -⟩ := h costlyRegistry (fun _ _ => .ok 10) ⟨1, false, false, 2000⟩
    (.call "costly" []) .quarterTurn [] 10 maxCost rfl rfl hseparated (by decide +kernel)
  have hbreach : fault? (refine costlyRegistry (fun _ _ => .ok (10 : Rat)) ⟨1, false, false, 2000⟩
      (.call "costly" []) .quarterTurn []) = some (.breach .cost) := by decide +kernel
  rw [hr] at hbreach
  cases hbreach

end Search

end GridRepair
