/-
# Searches with a larger budget

A search that may take more rounds does first what the search with fewer rounds does, and goes on
from there only if that one used all its rounds and its last round moved (`climb_add`).  Going on
adds edits at the end, counts on and, with exact scores, does not lower the score
(`Position.Extends`).  So the results of two searches that differ in their budget alone are related
by `refine_extends`, and a search that did not use its budget gives the result of every larger one.
-/
import GridRepair.Proofs.Ascent
import GridRepair.Proofs.Course

namespace GridRepair

namespace Search

/-! ## Going on -/

/-- The second position lies further on in a search than the first one. -/
structure Position.Extends (x y : Position Rat) : Prop where
  edits_extend : x.edits <+: y.edits
  score_le : x.score ≤ y.score
  rounds_le : x.rounds ≤ y.rounds
  evaluated_le : x.evaluated ≤ y.evaluated
  discarded_le : x.discarded ≤ y.discarded

/-- A position extends itself. -/
theorem Position.Extends.refl (x : Position Rat) : x.Extends x :=
  ⟨List.prefix_rfl, le_refl _, le_refl _, le_refl _, le_refl _⟩

/-- What extends an extension extends the first position. -/
theorem Position.Extends.trans {x y z : Position Rat} (hxy : x.Extends y) (hyz : y.Extends z) :
    x.Extends z where
  edits_extend := hxy.edits_extend.trans hyz.edits_extend
  score_le := hxy.score_le.trans hyz.score_le
  rounds_le := hxy.rounds_le.trans hyz.rounds_le
  evaluated_le := hxy.evaluated_le.trans hyz.evaluated_le
  discarded_le := hxy.discarded_le.trans hyz.discarded_le

/-- A round goes on from its position. -/
theorem Position.extends_round {s : Setting Rat} {x x' : Position Rat} {moved : Bool}
    (h : round s x = .ok (x', moved)) : x.Extends x' := by
  have hpos := Scalar.tolerance_pos
  obtain ⟨ss, hss, ⟨c, score, hw, rfl, -⟩ | ⟨-, rfl, -⟩⟩ := round_eq_ok_iff.1 h
  · obtain ⟨-, -, -, hlt⟩ := winner?_eq_some hss hw
    exact
      { edits_extend := List.prefix_append _ _
        score_le := by
          have hscore : (move (record x (batch s x) ss) c score).score = score := rfl
          rw [hscore]
          linarith
        rounds_le := Nat.le_succ _
        evaluated_le := Nat.le_add_right _ _
        discarded_le := Nat.le_add_right _ _ }
  · exact
      { edits_extend := List.prefix_rfl
        score_le := le_refl _
        rounds_le := Nat.le_succ _
        evaluated_le := Nat.le_add_right _ _
        discarded_le := Nat.le_add_right _ _ }

/-- A climb goes on from its position. -/
theorem Position.extends_climb {s : Setting Rat} {n : Nat} {x y : Position Rat}
    (h : climb s n x = .ok y) : x.Extends y :=
  climb_induction (fun _ _ _ hy _ hr => hy.trans (extends_round hr)) (.refl x) h

/-! ## More rounds -/

section

variable {S : Type} [Scalar S] {s : Setting S} {m n : Nat} {x y : Position S}

/-- A climb with more rounds ends where the one with fewer rounds ends, or goes on from there after
all of these rounds. -/
theorem climb_add (h : climb s m x = .ok y) (k : Nat) :
    climb s (m + k) x = .ok y ∨
      y.rounds = x.rounds + m ∧ climb s (m + k) x = climb s k y := by
  induction m generalizing x with
  | zero =>
    cases h
    rw [Nat.zero_add]
    exact .inr ⟨rfl, rfl⟩
  | succ m ih =>
    rw [Nat.succ_add]
    rcases climb_succ_eq_ok_iff.1 h with ⟨hge, rfl⟩ | ⟨hlt, hr | ⟨x', hr, h⟩⟩
    · exact .inl (climb_succ_eq_ok_iff.2 (.inl ⟨hge, rfl⟩))
    · exact .inl (climb_succ_eq_ok_iff.2 (.inr ⟨hlt, .inl hr⟩))
    · have hstep : climb s (m + k + 1) x = climb s (m + k) x' := by
        rw [climb, if_pos hlt, hr]
        rfl
      rw [hstep]
      rcases ih h with hend | ⟨hrounds, hon⟩
      · exact .inl hend
      · refine .inr ⟨?_, hon⟩
        rw [hrounds, rounds_round hr]
        omega

/-- A breach in a climb is one in every climb with more rounds. -/
theorem climb_add_of_error {fault : Fault} (h : climb s m x = .error fault) (k : Nat) :
    climb s (m + k) x = .error fault := by
  induction m generalizing x with
  | zero => cases h
  | succ m ih =>
    rw [Nat.succ_add]
    rw [climb] at h ⊢
    by_cases hlt : x.score < Scalar.maxScore - Scalar.tolerance
    · rw [if_pos hlt] at h ⊢
      cases hr : round s x with
      | error other =>
        rw [hr] at h
        exact h
      | ok r =>
        rw [hr] at h
        obtain ⟨x', moved⟩ := r
        cases moved with
        | false => cases h
        | true => exact ih h
    · rw [if_neg hlt] at h
      cases h

/-- A climb counts no more rounds than it may take. -/
theorem rounds_climb_le (h : climb s n x = .ok y) : y.rounds ≤ x.rounds + n := by
  obtain ⟨hle, hrounds⟩ := (course_climb h).length_le
  omega

end

/-- The result of a shorter search as it is found in that of a longer one. -/
structure Shortens (m : Nat) (short long : Refinement Rat) : Prop where
  edits_prefix : short.edits <+: long.edits
  rounds_eq : short.rounds = min m long.rounds
  evaluated_le : short.evaluated ≤ long.evaluated
  discarded_le : short.discarded ≤ long.discarded
  score_le : short.score ≤ long.score

/-- A search that ended within its budget is the beginning of itself. -/
theorem Shortens.refl {m : Nat} {r : Refinement Rat} (h : r.rounds ≤ m) : Shortens m r r :=
  ⟨List.prefix_rfl, (Nat.min_eq_right h).symm, le_refl _, le_refl _, le_refl _⟩

/-- **A larger budget only extends a search.**  With exact scores, where the search that may take
more rounds has a result, the one that may take fewer has one too.  The result with more rounds
begins with the edits of the other one, which takes as many rounds, up to its own budget; it
evaluates and discards no fewer candidates and ends with no lower score.  And where the search with
fewer rounds leaves one unused, every larger budget gives the same result. -/
theorem refine_extends {reg : Registry} {scorer : Scorer Rat} (effort : Effort) {p : Program}
    {t : Task} {hints : List Hint} {m n : Nat} (hle : m ≤ n) :
    (∀ long, refine reg scorer { effort with maxRounds := n } p t hints = .ok long →
      ∃ short, refine reg scorer { effort with maxRounds := m } p t hints = .ok short ∧
        Shortens m short long) ∧
    ∀ short, refine reg scorer { effort with maxRounds := m } p t hints = .ok short →
      short.rounds < m → refine reg scorer { effort with maxRounds := n } p t hints = .ok short := by
  cases hfirst : assess reg scorer t 0 p with
  | error fault =>
    have hsame : refine reg scorer { effort with maxRounds := n } p t hints =
        refine reg scorer { effort with maxRounds := m } p t hints := by
      cases fault <;> simp only [refine, hfirst]
    have hnone : ∀ r, refine reg scorer { effort with maxRounds := m } p t hints = .ok r →
        r.rounds = 0 := by
      intro r hr
      cases fault <;> simp only [refine, hfirst, Except.ok.injEq, reduceCtorEq] at hr <;>
        exact hr ▸ rfl
    rw [hsame]
    refine ⟨fun long hlong => ⟨long, hlong, .refl ?_⟩, fun short hshort _ => hshort⟩
    rw [hnone long hlong]
    exact Nat.zero_le m
  | ok first =>
    -- the fixed part of the two searches is the same
    have hsetting : setting reg scorer { effort with maxRounds := n } t hints =
        setting reg scorer { effort with maxRounds := m } t hints := rfl
    simp only [refine, hfirst, hsetting]
    generalize setting reg scorer { effort with maxRounds := m } t hints = s
    obtain ⟨k, rfl⟩ := Nat.exists_eq_add_of_le hle
    cases hclimb : climb s m (start p first.score) with
    | error fault =>
      rw [climb_add_of_error hclimb k]
      constructor <;> rintro _ ⟨⟩
    | ok x =>
      have hrounds : x.rounds ≤ m := (rounds_climb_le hclimb).trans_eq (Nat.zero_add m)
      simp only [ok_bind, pure_eq_ok, bind_eq_ok, exists_eq_left', forall_eq']
      rcases climb_add hclimb k with hsame | ⟨hall, hon⟩
      · rw [hsame]
        constructor
        · rintro long ⟨y, ⟨⟩, rfl⟩
          exact .refl hrounds
        · exact fun _ => ⟨x, rfl, rfl⟩
      · have hall' : x.rounds = m := hall.trans (Nat.zero_add m)
        constructor
        · rintro long ⟨y, hy, rfl⟩
          have hext := Position.extends_climb (hon ▸ hy)
          have hmore := hext.rounds_le
          refine ⟨hext.edits_extend, ?_, hext.evaluated_le, hext.discarded_le, hext.score_le⟩
          simp only [conclude]
          omega
        · exact fun hunused => absurd hall' (Nat.ne_of_lt hunused)

/-- Growing the identity for one round is the beginning of growing it for two rounds; and the quarter
turn, which is found in one of three rounds, is also what ten rounds lead to. -/
theorem refine_extends_bySize :
    (∃ short long : Refinement Rat,
      refine .standard bySize ⟨1, true, true, 20⟩ .identity .quarterTurn [] = .ok short ∧
        refine .standard bySize ⟨2, true, true, 20⟩ .identity .quarterTurn [] = .ok long ∧
        short.edits.length = 1 ∧ long.edits.length = 2 ∧ short.edits <+: long.edits ∧
        short.score ≤ long.score) ∧
      refine .standard (Program.score .standard : Scorer Rat) ⟨10, true, true, 40⟩ .identity
          .quarterTurn [] =
        refine .standard (Program.score .standard) ⟨3, true, true, 40⟩ .identity
          .quarterTurn [] := by
  constructor
  · have hshort : (refine .standard bySize ⟨1, true, true, 20⟩ .identity .quarterTurn
        []).toOption.map (fun r => r.edits.length) = some 1 := by decide +kernel
    have hlong : (refine .standard bySize ⟨2, true, true, 20⟩ .identity .quarterTurn
        []).toOption.map (fun r => r.edits.length) = some 2 := by decide +kernel
    obtain ⟨long, hlong, htwo⟩ := exists_ok_of_map hlong
    obtain ⟨short', hshort', hone⟩ := exists_ok_of_map hshort
    obtain ⟨short, hshort, hbegins⟩ := (refine_extends ⟨1, true, true, 20⟩ (p := .identity) (m := 1)
      (n := 2) (by decide)).1 long hlong
    obtain rfl := Except.ok.inj (hshort'.symm.trans hshort)
    exact ⟨short', long, hshort, hlong, hone, htwo, hbegins.edits_prefix, hbegins.score_le⟩
  · have hunused : (refine .standard (Program.score .standard : Scorer Rat) ⟨3, true, true, 40⟩
        .identity .quarterTurn []).toOption.map (fun r => decide (r.rounds < 3)) = some true := by
      decide +kernel
    obtain ⟨r, hr, hrounds⟩ := exists_ok_of_map hunused
    have hmore := (refine_extends ⟨3, true, true, 40⟩ (p := .identity) (m := 3) (n := 10)
      (by decide)).2 r hr (of_decide_eq_true hrounds)
    rw [hr]
    exact hmore

end Search

end GridRepair
