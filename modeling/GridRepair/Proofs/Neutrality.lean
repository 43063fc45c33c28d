/-
# Steps that change nothing

The identity can be put among the steps of a program and taken from them (`Edit.Idle`), and neither
what the program costs nor what it gives is another (`Edit.run_cost_of_idle`).  A composition runs its
steps each on the grid that the one before it gives (`Program.runEach`), and so a step that gives its
own grid and costs nothing counts for nothing there.  The brackets that such an edit adds or takes
away do not count either.

A program costs and gives the same when one of its nodes does (`Program.Keeps.replaceAt`), however
deep the node is.  There are two exceptions from giving the same.  A composition without steps fails
before the insertion and not after it, and a fault can name a step by its text (`Similar`), which is
another one after the edit.
-/
import Mathlib.Data.List.InsertIdx
import GridRepair.Proofs.Editing
import GridRepair.Proofs.Flattening

namespace GridRepair

/-- The second computation gives what the first one gives and fails where it fails, unless the first
one comes to a composition without steps. -/
def Retains {α : Type} (x y : Except Fault α) : Prop := x = .error .emptyComposition ∨ Similar x y

namespace Retains

variable {α β : Type} {x y z : Except Fault α}

/-- What the first computation goes on with, the second one goes on with. -/
theorem bind (h : Retains x y) {f f' : α → Except Fault β} (hf : ∀ a, Retains (f a) (f' a)) :
    Retains (x >>= f) (y >>= f') := by
  rcases h with rfl | h
  · exact .inl rfl
  · cases h with
    | refl =>
      cases x with
      | error fault => exact .inr (.refl _)
      | ok a => exact hf a
    | noGrid step step' => exact .inr (.noGrid step step')

/-- The first computation can be replaced by a similar one. -/
theorem trans_left (h : Similar x y) (h' : Retains y z) : Retains x z := by
  rcases h' with rfl | h'
  · cases h with
    | refl => exact .inl rfl
  · exact .inr (h.trans h')

/-- The second computation can be replaced by a similar one. -/
theorem trans_right (h : Retains x y) (h' : Similar y z) : Retains x z :=
  h.imp_right fun hsimilar => hsimilar.trans h'

/-- A result is retained. -/
theorem ok {a : α} (h : Retains x y) (hx : x = .ok a) : y = .ok a := by
  subst hx
  rcases h with h | h
  · cases h
  · cases h with
    | refl => rfl

end Retains

/-- The costs of all primitives are in the range of costs. -/
def Registry.Priced (reg : Registry) : Prop :=
  ∀ name prim, reg.get? name = some prim → prim.cost ≤ maxCost

/-- The costs are in range when those of the table are. -/
theorem Registry.priced_of_forall {reg : Registry}
    (h : ∀ prim ∈ reg.primitives, prim.cost ≤ maxCost) : reg.Priced :=
  fun _ prim hprim => h prim (List.mem_of_find?_eq_some hprim)

namespace Program

variable {reg : Registry} {p node node' step step' : Program} {steps : List Program} {path : Path}

/-! ## Costs -/

/-- What is spent on steps is in range, when it is in range before them. -/
theorem costFrom_le {spent total : Nat} (hspent : spent ≤ maxCost)
    (h : costFrom reg spent steps = .ok total) : total ≤ maxCost := by
  induction steps generalizing spent with
  | nil =>
    rw [costFrom, Except.ok.injEq] at h
    rw [← h]
    exact hspent
  | cons p ps ih =>
    rw [costFrom, bind_eq_ok] at h
    obtain ⟨c, -, h⟩ := h
    split at h
    · next hle => exact ih hle h
    · cases h

/-- The cost of a program is in range. -/
theorem cost_le (hpriced : reg.Priced) {total : Nat} (h : p.cost reg = .ok total) :
    total ≤ maxCost := by
  cases p with
  | call name args =>
    rw [cost, map_eq_ok] at h
    obtain ⟨prim, hprim, rfl⟩ := h
    exact hpriced name prim (find_eq_ok hprim).1
  | compose steps =>
    rw [cost] at h
    exact costFrom_le (Nat.zero_le _) h
  | literal v =>
    rw [cost, Except.ok.injEq] at h
    rw [← h]
    exact Nat.zero_le _

/-- Brackets around a single step cost nothing. -/
theorem cost_collapse (hpriced : reg.Priced) (steps : List Program) :
    (collapse steps).cost reg = costFrom reg 0 steps := by
  rw [collapse.eq_def]
  split
  · rw [costFrom_singleton fun total => cost_le hpriced]
  · rw [cost]

/-- A step that costs nothing can stand anywhere. -/
theorem costFrom_insertIdx (hfree : step.cost reg = .ok 0) (index : Nat) (steps : List Program)
    {spent : Nat} (hspent : spent ≤ maxCost) :
    costFrom reg spent (steps.insertIdx index step) = costFrom reg spent steps := by
  induction index generalizing steps spent with
  | zero => rw [List.insertIdx_zero, costFrom, hfree, ok_bind, Nat.add_zero, if_pos hspent]
  | succ index ih =>
    cases steps with
    | nil => rfl
    | cons p ps =>
      rw [List.insertIdx_succ_cons, costFrom, costFrom]
      refine congrArg (p.cost reg >>= ·) (funext fun c => ?_)
      split
      · next hle => exact ih ps hle
      · rfl

/-- A step that costs the same can stand in the place of another. -/
theorem costFrom_set {index spent : Nat} (hstep : steps[index]? = some step)
    (hcost : step'.cost reg = step.cost reg) :
    costFrom reg spent (steps.set index step') = costFrom reg spent steps := by
  induction index generalizing steps spent with
  | zero =>
    cases steps with
    | nil => rfl
    | cons p ps =>
      obtain rfl := Option.some.inj hstep
      rw [List.set_cons_zero, costFrom, costFrom, hcost]
  | succ index ih =>
    cases steps with
    | nil => rfl
    | cons p ps =>
      rw [List.set_cons_succ, costFrom, costFrom]
      refine congrArg (p.cost reg >>= ·) (funext fun c => ?_)
      rw [ih hstep]

/-! ## Runs -/

/-- Run programs one after another, each on the grid that the one before it gives. -/
def runEach (reg : Registry) : List Program → Grid → Except Fault Grid
  | [], g => .ok g
  | p :: ps, g => p.run reg g >>= runEach reg ps

/-- A single program is run. -/
theorem runEach_singleton (p : Program) (g : Grid) : runEach reg [p] g = p.run reg g := by
  rw [runEach]
  cases p.run reg g <;> rfl

/-- A program is run by asking its value for a grid. -/
theorem run_eq_asGrid (p : Program) (g : Grid) :
    p.run reg g = p.eval reg g >>= fun v => v.asGrid p.render := by
  rw [run]
  refine congrArg (p.eval reg g >>= ·) (funext fun v => ?_)
  cases v <;> rfl

/-- Steps are evaluated by running them one after another, as far as they give grids. -/
theorem similar_runEach (hne : steps ≠ []) (g : Grid) (text : String) :
    Similar (evalSteps reg steps g >>= fun v => v.asGrid text) (runEach reg steps g) := by
  induction steps generalizing g with
  | nil => exact absurd rfl hne
  | cons p ps ih =>
    by_cases hps : ps = []
    · -- the last step is named by the text or by itself
      subst hps
      rw [evalSteps_singleton, runEach_singleton, run_eq_asGrid]
      exact (Similar.refl _).bind fun v => v.similar_asGrid text p.render
    · rw [evalSteps_cons p hps, runEach, run_eq_asGrid]
      simp only [bind_assoc]
      exact (Similar.refl _).bind fun v => (Similar.refl _).bind fun g' => ih hps g'

/-- A composition is run by running its steps one after another. -/
theorem similar_run_compose (hne : steps ≠ []) (g : Grid) :
    Similar ((compose steps).run reg g) (runEach reg steps g) := by
  rw [run_eq_asGrid, eval]
  exact similar_runEach hne g _

/-- A program is run by running its steps one after another. -/
theorem similar_run_asSteps (hne : p.asSteps ≠ []) (g : Grid) :
    Similar (p.run reg g) (runEach reg p.asSteps g) := by
  cases p with
  | call name args =>
    rw [asSteps, runEach_singleton]
    exact .refl _
  | compose steps => exact similar_run_compose hne g
  | literal v =>
    rw [asSteps, runEach_singleton]
    exact .refl _

/-- Brackets around a single step do not matter to a run. -/
theorem similar_run_collapse (hne : steps ≠ []) (g : Grid) :
    Similar ((collapse steps).run reg g) (runEach reg steps g) := by
  rw [collapse.eq_def]
  split
  · rw [runEach_singleton]
    exact .refl _
  · exact similar_run_compose hne g

/-- A step that gives its own grid can stand anywhere. -/
theorem runEach_insertIdx (hrun : ∀ g, step.run reg g = .ok g) (index : Nat)
    (steps : List Program) (g : Grid) :
    runEach reg (steps.insertIdx index step) g = runEach reg steps g := by
  induction index generalizing steps g with
  | zero => rw [List.insertIdx_zero, runEach, hrun, ok_bind]
  | succ index ih =>
    cases steps with
    | nil => rfl
    | cons p ps =>
      rw [List.insertIdx_succ_cons, runEach, runEach]
      exact congrArg (p.run reg g >>= ·) (funext (ih ps))

/-- A step that retains what another gives can stand in its place. -/
theorem retains_runEach_set {index : Nat} (hstep : steps[index]? = some step)
    (hrun : ∀ g, Retains (step.run reg g) (step'.run reg g)) (g : Grid) :
    Retains (runEach reg steps g) (runEach reg (steps.set index step') g) := by
  induction index generalizing steps g with
  | zero =>
    cases steps with
    | nil => cases hstep
    | cons p ps =>
      obtain rfl := Option.some.inj hstep
      rw [List.set_cons_zero, runEach, runEach]
      exact (hrun g).bind fun g' => .inr (.refl _)
  | succ index ih =>
    cases steps with
    | nil => cases hstep
    | cons p ps =>
      rw [List.set_cons_succ, runEach, runEach]
      exact Retains.bind (.inr (.refl _)) fun g' => ih hstep g'

/-! ## Nodes -/

/-- The second program costs what the first one costs and gives what it gives. -/
structure Keeps (reg : Registry) (p q : Program) : Prop where
  cost_eq : q.cost reg = p.cost reg
  retains : ∀ g, Retains (p.run reg g) (q.run reg g)

/-- A node can be replaced by one that keeps what it costs and gives. -/
theorem Keeps.replaceAt (hkeeps : node.Keeps reg node') (h : p.node? path = some node) :
    p.Keeps reg (p.replaceAt path node') := by
  induction path generalizing p with
  | nil =>
    obtain rfl := Option.some.inj h
    exact hkeeps
  | cons i path ih =>
    obtain ⟨steps, step, rfl, hstep, hnode⟩ := exists_step_of_node? h
    have hi : i < steps.length := (List.getElem?_eq_some_iff.1 hstep).1
    have hne : steps ≠ [] := List.ne_nil_of_length_pos (Nat.zero_lt_of_lt hi)
    have hne' : steps.set i (step.replaceAt path node') ≠ [] := by
      rw [Ne, List.set_eq_nil_iff]
      exact hne
    rw [replaceAt_compose hstep]
    constructor
    · rw [cost, cost, costFrom_set hstep (ih hnode).cost_eq]
    · intro g
      have hset := retains_runEach_set hstep (ih hnode).retains g
      exact Retains.trans_left (similar_run_compose hne g)
        (hset.trans_right (similar_run_compose hne' g).symm)

/-- A step that costs nothing and gives its own grid can be put among the steps of a program. -/
theorem keeps_insertIdx (hpriced : reg.Priced) (hfree : step.cost reg = .ok 0)
    (hrun : ∀ g, step.run reg g = .ok g) {index : Nat} (hindex : index ≤ node.asSteps.length) :
    node.Keeps reg (.compose (node.asSteps.insertIdx index step)) := by
  constructor
  · rw [cost, costFrom_insertIdx hfree index _ (Nat.zero_le _), costFrom_asSteps fun total => cost_le hpriced]
  · intro g
    by_cases hne : node.asSteps = []
    · cases node with
      | call name args => cases hne
      | compose steps =>
        rw [asSteps] at hne
        rw [hne]
        exact .inl rfl
      | literal v => cases hne
    · have hne' : node.asSteps.insertIdx index step ≠ [] :=
        List.ne_nil_of_mem ((List.mem_insertIdx hindex).2 (.inl rfl))
      have hsteps : Similar (node.run reg g) (runEach reg node.asSteps g) :=
        similar_run_asSteps hne g
      rw [← runEach_insertIdx hrun index] at hsteps
      exact .inr (hsteps.trans (similar_run_compose hne' g).symm)

/-- A step that costs nothing and gives its own grid can be taken from several steps. -/
theorem keeps_eraseIdx (hpriced : reg.Priced) (hfree : step.cost reg = .ok 0)
    (hrun : ∀ g, step.run reg g = .ok g) {index : Nat} (hstep : steps[index]? = some step)
    (htwo : 2 ≤ steps.length) :
    (compose steps).Keeps reg (collapse (steps.eraseIdx index)) := by
  obtain ⟨hindex, rfl⟩ := List.getElem?_eq_some_iff.1 hstep
  -- the steps are those that are left, with the step put back among them
  have hsteps : (steps.eraseIdx index).insertIdx index steps[index] = steps :=
    List.insertIdx_eraseIdx_getElem hindex
  have hne : steps ≠ [] := List.ne_nil_of_length_pos (Nat.zero_lt_of_lt hindex)
  have hne' : steps.eraseIdx index ≠ [] := by
    rw [← List.length_pos_iff, List.length_eraseIdx_of_lt hindex]
    omega
  constructor
  · rw [cost_collapse hpriced, cost]
    have hcost := costFrom_insertIdx hfree index (steps.eraseIdx index) (Nat.zero_le maxCost)
    rw [hsteps] at hcost
    exact hcost.symm
  · intro g
    have hruns := runEach_insertIdx hrun index (steps.eraseIdx index) g
    rw [hsteps] at hruns
    have hleft : Similar ((compose steps).run reg g) (runEach reg steps g) :=
      similar_run_compose hne g
    rw [hruns] at hleft
    exact .inr (hleft.trans (similar_run_collapse hne' g).symm)

/-! ## The identity -/

/-- The identity of the catalogue gives its own grid. -/
theorem run_identity (g : Grid) : identity.run .standard g = .ok g := rfl

/-- The identity of the catalogue is free. -/
theorem cost_identity : identity.cost .standard = .ok 0 := rfl

end Program

/-- The costs of the catalogue are in range. -/
theorem Registry.priced_standard : Registry.standard.Priced :=
  priced_of_forall (by decide +kernel)

namespace Edit

open Program

variable {p q : Program}

/-- The edit puts the identity among the steps of a program, or takes it from them. -/
def Idle (p : Program) : Edit → Prop
  | .insert _ _ step => step = Program.identity
  | .remove location => p.node? location = some Program.identity
  | _ => False

/-- An idle edit keeps what the program costs and gives. -/
theorem Idle.keeps {edit : Edit} (hidle : edit.Idle p) (h : edit.apply p = .ok q) :
    p.Keeps .standard q := by
  cases edit with
  | swap location name replacement => cases hidle
  | tweak location index old? new => cases hidle
  | insert location index step =>
    obtain ⟨node, hnode, -, hindex, rfl⟩ := apply_insert_eq_ok_iff.1 h
    obtain rfl : step = identity := hidle
    have hkeeps := keeps_insertIdx Registry.priced_standard cost_identity run_identity hindex
    exact hkeeps.replaceAt hnode
  | remove location =>
    obtain ⟨parent, index, steps, rfl, hnode, htwo, -, rfl⟩ := apply_remove_eq_ok_iff.1 h
    have hstep : steps[index]? = some identity := (node?_child hnode index).symm.trans hidle
    have hkeeps := keeps_eraseIdx Registry.priced_standard cost_identity run_identity hstep htwo
    exact hkeeps.replaceAt hnode
  | reorder location => cases hidle

/-- **The identity is neutral.**  Wherever it is inserted or removed, the program costs what it cost
before, and on every grid that it gave a grid for, it gives the same one.  Where it fails, it goes on
to fail for the same reason, unless that was a composition without steps. -/
theorem run_cost_of_idle {edit : Edit} (hidle : edit.Idle p) (h : edit.apply p = .ok q) :
    q.cost .standard = p.cost .standard ∧
      ∀ g, (∀ out, p.run .standard g = .ok out → q.run .standard g = .ok out) ∧
        (p.run .standard g ≠ .error .emptyComposition →
          Similar (p.run .standard g) (q.run .standard g)) := by
  obtain ⟨hcost, hretains⟩ := hidle.keeps h
  refine ⟨hcost, fun g => ⟨fun out hout => (hretains g).ok hout, fun hne => ?_⟩⟩
  exact (hretains g).resolve_left hne

/-- Between the flip and the turn in brackets, and as the last step, the identity does not count. -/
theorem run_cost_of_idle_bracketed :
    ∃ q r, (Edit.insert [1] 1 .identity).apply .bracketed = .ok q ∧
      (Edit.remove [2]).apply .bracketed = .ok r ∧ q ≠ r ∧
      q.cost .standard = .ok 3 ∧ r.cost .standard = .ok 3 ∧
      q.run .standard ⟨1, 2, #[3, 5], rfl⟩ = .ok ⟨1, 2, #[5, 3], rfl⟩ ∧
      r.run .standard ⟨1, 2, #[3, 5], rfl⟩ = .ok ⟨1, 2, #[5, 3], rfl⟩ := by
  have hrun : Program.bracketed.run .standard ⟨1, 2, #[3, 5], rfl⟩ =
      .ok ⟨1, 2, #[5, 3], rfl⟩ := rfl
  have hcost : Program.bracketed.cost .standard = .ok 3 := rfl
  have hinsert : (Edit.insert [1] 1 .identity).Idle .bracketed := rfl
  have hremove : (Edit.remove [2]).Idle .bracketed := rfl
  obtain ⟨hinserted, hgrids⟩ := run_cost_of_idle hinsert rfl
  obtain ⟨hremoved, hgrids'⟩ := run_cost_of_idle hremove rfl
  refine ⟨_, _, rfl, rfl, by decide, hinserted.trans hcost, hremoved.trans hcost, ?_, ?_⟩
  · exact (hgrids _).1 _ hrun
  · exact (hgrids' _).1 _ hrun

end Edit

end GridRepair
