/-
# Searches as ascents

A search that takes place climbs: `Ascent` is a chain of edits, each of which applies to the
program before it and leads to a program with a cost and a score higher by more than the
tolerance.  A climb stays at the end of an ascent (`Reached.climb`), and with exact scores the
result of a search can be replayed from its edits (`refine_replays`).
-/
import Mathlib.Algebra.Order.Ring.Rat
import Mathlib.Tactic.Linarith
import GridRepair.Catalogue
import GridRepair.Proofs.Examples
import GridRepair.Proofs.Round

namespace GridRepair

/-- The program after edits carried out one after another. -/
def Edit.applyAll (edits : List Edit) (p : Program) : Except Fault Program :=
  edits.foldlM (fun q edit => edit.apply q) p

/-- Carrying out one more edit. -/
theorem Edit.applyAll_concat {edits : List Edit} {edit : Edit} {p q : Program}
    (h : applyAll edits p = .ok q) : applyAll (edits ++ [edit]) p = edit.apply q := by
  rw [applyAll] at h ⊢
  rw [List.foldlM_append, h, ok_bind, List.foldlM_cons]
  cases edit.apply q <;> rfl

variable {S : Type} [Scalar S]

/-- The edits lead from a first program and its score upwards to another program and its score:
every program on the way has a score and a cost, and every edit raises the score by more than the
tolerance. -/
inductive Ascent (reg : Registry) (scorer : Scorer S) (t : Task) (p : Program) (score : S) :
    List Edit → Program → S → Prop where
  /-- the first program alone -/
  | start {cost : Nat} (hscore : scorer p t = .ok score) (hcost : p.cost reg = .ok cost) :
    Ascent reg scorer t p score [] p score
  /-- one more edit -/
  | step {edits : List Edit} {edit : Edit} {q q' : Program} {s s' : S} {cost : Nat}
    (hbefore : Ascent reg scorer t p score edits q s) (happly : edit.apply q = .ok q')
    (hscore : scorer q' t = .ok s') (hcost : q'.cost reg = .ok cost)
    (hlt : s + Scalar.tolerance < s') :
    Ascent reg scorer t p score (edits ++ [edit]) q' s'

namespace Ascent

variable {reg : Registry} {scorer : Scorer S} {t : Task} {p q : Program} {score s : S}
  {edits : List Edit}

/-- The edits of an ascent can be carried out one after another. -/
theorem applyAll (h : Ascent reg scorer t p score edits q s) :
    Edit.applyAll edits p = .ok q := by
  induction h with
  | start => rfl
  | step _ happly _ _ _ ih => rw [Edit.applyAll_concat ih, happly]

/-- An ascent ends in a program of the final score. -/
theorem score_eq (h : Ascent reg scorer t p score edits q s) : scorer q t = .ok s := by
  cases h with
  | start hscore _ => exact hscore
  | step _ _ hscore _ _ => exact hscore

/-- An ascent ends in a program with a cost. -/
theorem exists_cost (h : Ascent reg scorer t p score edits q s) :
    ∃ cost, q.cost reg = .ok cost := by
  cases h with
  | start _ hcost => exact ⟨_, hcost⟩
  | step _ _ _ hcost _ => exact ⟨_, hcost⟩

/-- Without edits, an ascent stays where it starts. -/
theorem eq_start (h : Ascent reg scorer t p score [] q s) : q = p ∧ s = score := by
  generalize hedits : ([] : List Edit) = edits at h
  cases h with
  | start => exact ⟨rfl, rfl⟩
  | step =>
    have hnil := congrArg List.length hedits
    simp at hnil

end Ascent

/-! ## Exact scores -/

/-- The tolerance is positive. -/
theorem Scalar.tolerance_pos : (0 : Rat) < Scalar.tolerance := by
  decide +kernel

namespace Ascent

variable {reg : Registry} {scorer : Scorer Rat} {t : Task} {p q : Program} {score s : Rat}
  {edits : List Edit}

/-- With exact scores, an ascent does not lower the score. -/
theorem le (h : Ascent reg scorer t p score edits q s) : score ≤ s := by
  have hpos := Scalar.tolerance_pos
  induction h with
  | start => exact le_refl score
  | step _ _ _ _ hlt ih => linarith

/-- With exact scores, edits raise the score by more than the tolerance. -/
theorem lt_of_ne_nil (h : Ascent reg scorer t p score edits q s) (hne : edits ≠ []) :
    score + Scalar.tolerance < s := by
  cases h with
  | start => exact absurd rfl hne
  | step hbefore _ _ _ hlt =>
    -- the last edit alone adds the margin, and the ones before it lower nothing
    have hle := hbefore.le
    linarith

end Ascent

/-! ## Positions of a search -/

namespace Search

/-- A position that a search from a program of a known score can be in. -/
structure Reached (s : Setting S) (p : Program) (score : S) (x : Position S) : Prop where
  /-- the edits lead upwards to the current program -/
  ascent : Ascent s.registry s.scorer s.task p score x.edits x.current x.score
  /-- the first program was visited -/
  start_mem : p ∈ x.visited
  /-- edits lead away from the first program -/
  current_ne : x.edits ≠ [] → x.current ≠ p

variable {s : Setting S} {p : Program} {score : S} {x : Position S}

/-- A search starts in a reached position. -/
theorem reached_start {cost : Nat} (hscore : s.scorer p s.task = .ok score)
    (hcost : p.cost s.registry = .ok cost) : Reached s p score (start p score) where
  ascent := .start hscore hcost
  start_mem := List.mem_singleton_self p
  current_ne hne := absurd rfl hne

/-- A round leads from reached positions to reached positions. -/
theorem Reached.round (h : Reached s p score x) {x' : Position S} {moved : Bool}
    (hr : Search.round s x = .ok (x', moved)) : Reached s p score x' := by
  have hvisited : p ∈ (batch s x).map Candidate.program ++ x.visited :=
    List.mem_append_right _ h.start_mem
  obtain ⟨ss, hss, ⟨c, score', hw, rfl, -⟩ | ⟨-, rfl, -⟩⟩ := round_eq_ok_iff.1 hr
  · obtain ⟨hc, hscore, ⟨cost, hcost⟩, hlt⟩ := winner?_eq_some hss hw
    obtain ⟨happly, hnew⟩ := mem_batch hc
    refine ⟨h.ascent.step happly hscore hcost hlt, hvisited, fun _ heq => ?_⟩
    -- the winner was not visited before this round, but the first program was
    have hfirst : c.program = p := heq
    exact hnew (hfirst ▸ h.start_mem)
  · exact ⟨h.ascent, hvisited, h.current_ne⟩

/-- A climb leads from reached positions to reached positions. -/
theorem Reached.climb (h : Reached s p score x) {n : Nat} {y : Position S}
    (hy : Search.climb s n x = .ok y) : Reached s p score y :=
  climb_induction (fun _ _ _ hx _ hr => hx.round hr) h hy

variable {reg : Registry} {scorer : Scorer S} {effort : Effort} {t : Task} {hints : List Hint}
  {r : Refinement S}

/-- A search from a program that has a score and a cost is a climb from there. -/
theorem refine_of_score {cost : Nat} (hscore : scorer p t = .ok score)
    (hcost : p.cost reg = .ok cost) :
    refine reg scorer effort p t hints = (do
      let x ← climb (setting reg scorer effort t hints) effort.maxRounds (start p score)
      pure (conclude p score x)) := by
  have hassess : assess reg scorer t 0 p = .ok ⟨0, score, cost⟩ :=
    assess_eq_ok_iff.2 ⟨rfl, hscore, hcost⟩
  simp only [refine, hassess]

/-- A search that takes place climbs from a program with a score and a cost. -/
theorem refine_climbed (hr : refine reg scorer effort p t hints = .ok r)
    (h : r.success = true) :
    ∃ score cost x, scorer p t = .ok score ∧ p.cost reg = .ok cost ∧
      climb (setting reg scorer effort t hints) effort.maxRounds (start p score) = .ok x ∧
      r = conclude p score x := by
  cases hfirst : assess reg scorer t 0 p with
  | error fault =>
    simp only [refine, hfirst] at hr
    split at hr
    · next hok => cases hok
    · cases hr
    · next hfault =>
      cases hr
      cases h
  | ok first =>
    obtain ⟨-, hscore, hcost⟩ := assess_eq_ok_iff.1 hfirst
    rw [refine_of_score hscore hcost] at hr
    obtain ⟨x, hx, hr⟩ := bind_eq_ok.1 hr
    exact ⟨first.score, first.cost, x, hscore, hcost, hx, (pure_eq_ok.1 hr).symm⟩

/-- A search that takes place ends in a position reached from its first program. -/
theorem refine_reached (hr : refine reg scorer effort p t hints = .ok r)
    (h : r.success = true) :
    ∃ score x, Reached (setting reg scorer effort t hints) p score x ∧ r = conclude p score x := by
  obtain ⟨score, cost, x, hscore, hcost, hx, rfl⟩ := refine_climbed hr h
  have hstart : Reached (setting reg scorer effort t hints) p score (start p score) :=
    reached_start hscore hcost
  exact ⟨score, x, hstart.climb hx, rfl⟩

/-! ## Results of a search -/

/-- With exact scores, a search improves on its first program when it carried out edits. -/
theorem Reached.improved_iff {s : Setting Rat} {p : Program} {score : Rat} {x : Position Rat}
    (h : Reached s p score x) : (conclude p score x).improved = true ↔ x.edits ≠ [] := by
  rw [conclude, decide_eq_true_iff]
  constructor
  · intro hlt hnil
    have hstart := h.ascent
    rw [hnil] at hstart
    have hpos := Scalar.tolerance_pos
    linarith [hstart.eq_start.2]
  · exact h.ascent.lt_of_ne_nil

/-- With exact scores, a search gives back the program where it ended. -/
theorem Reached.program_eq {s : Setting Rat} {p : Program} {score : Rat} {x : Position Rat}
    (h : Reached s p score x) : (conclude p score x).program = x.current := by
  have hprogram : (conclude p score x).program =
      if (conclude p score x).improved then x.current else p := rfl
  rw [hprogram]
  by_cases himproved : (conclude p score x).improved = true
  · rw [if_pos himproved]
  · -- without an improvement there are no edits, and the search ended where it started
    rw [if_neg himproved]
    have hstart := h.ascent
    rw [not_not.1 (mt h.improved_iff.2 himproved)] at hstart
    exact hstart.eq_start.1.symm

/-- **The result of a search can be replayed.**  Where a search takes place, its edits can be
carried out one after another and lead from its first program to its result; they form an ascent
from the first score to the last one; and there are edits exactly when the search improved, and
exactly when the result differs from the first program. -/
theorem refine_replays {reg : Registry} {scorer : Scorer Rat} {effort : Effort} {p : Program}
    {t : Task} {hints : List Hint} {r : Refinement Rat}
    (hr : refine reg scorer effort p t hints = .ok r) (h : r.success = true) :
    r.start = p ∧ Edit.applyAll r.edits r.start = .ok r.program ∧
      Ascent reg scorer t r.start r.startScore r.edits r.program r.score ∧
      (r.improved = true ↔ r.edits ≠ []) ∧ (r.improved = true ↔ r.program ≠ r.start) := by
  obtain ⟨score, x, hx, rfl⟩ := refine_reached hr h
  rw [hx.program_eq, hx.improved_iff]
  refine ⟨rfl, hx.ascent.applyAll, hx.ascent, Iff.rfl, hx.current_ne, fun hne hnil => hne ?_⟩
  have hstart := hx.ascent
  rw [hnil] at hstart
  exact hstart.eq_start.1

/-- A search from the identity finds the quarter turn by edits that can be replayed. -/
theorem refine_replays_quarterTurn :
    ∃ r : Refinement Rat,
      refine .standard (Program.score .standard) .standard .identity .quarterTurn [] = .ok r ∧
        r.success = true ∧ r.edits = [.swap [] "identity" "rotate90"] ∧
        Edit.applyAll r.edits .identity = .ok r.program ∧
        Ascent .standard (Program.score .standard) .quarterTurn .identity r.startScore r.edits
          r.program r.score := by
  have hfound : (refine .standard (Program.score .standard : Scorer Rat) .standard .identity
      .quarterTurn []).toOption.map (fun r => (r.success, r.edits)) =
        some (true, [.swap [] "identity" "rotate90"]) := by decide +kernel
  obtain ⟨r, hr, hfields⟩ := exists_ok_of_map hfound
  obtain ⟨hsuccess, hedits⟩ := Prod.mk.inj hfields
  obtain ⟨hstart, hreplay, hascent, -⟩ := refine_replays hr hsuccess
  rw [hstart] at hreplay hascent
  exact ⟨r, hr, hsuccess, hedits, hreplay, hascent⟩

end Search

end GridRepair
