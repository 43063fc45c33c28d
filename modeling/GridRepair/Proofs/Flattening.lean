/-
# Nesting of compositions

How the steps of a program are nested says nothing: a program evaluates to what its leaves evaluate
to, run one after another (`similar_flat`).  Only the text of a fault can tell the two apart, because
a step that gives no grid is named by the whole step, and a step may be a composition or its last
leaf.  `Similar` compares two computations up to that text.

The step lemma is `similar_append`: running two lists of steps in a row is running the second one on
the grid that the first one gives.  So a step that stands in the place of a composition with the same
leaves is no change either (`eval_flat`); this is what removing the last but one step relies on.

Arguments are not run, and a composition among them is refused whatever it holds.  Taking off the
brackets of a step is no change there either (`Unwraps.similar`), except that a literal is an argument
without brackets and none inside them (`not_eval_unwrapped`).
-/
import GridRepair.Catalogue
import GridRepair.Proofs.Addresses
import GridRepair.Proofs.Evaluation

namespace GridRepair

/-! ## Equality up to the text of a step -/

/-- Two computations give the same result, or fail for the same reason; the text of a step without
a grid may differ. -/
inductive Similar {α : Type} : Except Fault α → Except Fault α → Prop where
  /-- the same result or the same fault -/
  | refl (x : Except Fault α) : Similar x x
  /-- a step without a grid, named in two ways -/
  | noGrid (step step' : String) : Similar (.error (.noGrid step)) (.error (.noGrid step'))

namespace Similar

variable {α β : Type} {x y z : Except Fault α}

theorem symm (h : Similar x y) : Similar y x := by
  cases h with
  | refl => exact .refl x
  | noGrid step step' => exact .noGrid step' step

theorem trans (h : Similar x y) (h' : Similar y z) : Similar x z := by
  cases h with
  | refl => exact h'
  | noGrid step step' =>
    cases h' with
    | refl => exact .noGrid step step'
    | noGrid _ step'' => exact .noGrid step step''

/-- Similar computations go on in a similar way. -/
theorem bind (h : Similar x y) {f f' : α → Except Fault β} (hf : ∀ a, Similar (f a) (f' a)) :
    Similar (x >>= f) (y >>= f') := by
  cases h with
  | refl =>
    cases x with
    | error fault => exact .refl _
    | ok a => exact hf a
  | noGrid step step' => exact .noGrid step step'

end Similar

/-- The grid that a step of the given text has to give. -/
def Value.asGrid (step : String) : Value → Except Fault Grid
  | .grid g => .ok g
  | _ => .error (.noGrid step)

/-- Asking for a grid depends on the text of the step only by naming it. -/
theorem Value.similar_asGrid (v : Value) (step step' : String) :
    Similar (v.asGrid step) (v.asGrid step') := by
  cases v with
  | grid g => exact .refl _
  | int _ => exact .noGrid step step'
  | bool _ => exact .noGrid step step'
  | colors _ => exact .noGrid step step'
  | positions _ => exact .noGrid step step'

namespace Program

variable {reg : Registry}

/-! ## Steps in a row -/

/-- The first step has to give a grid, on which the others run. -/
theorem evalSteps_cons (p : Program) {ps : List Program} (hne : ps ≠ []) (g : Grid) :
    evalSteps reg (p :: ps) g =
      p.eval reg g >>= fun v => v.asGrid p.render >>= fun g' => evalSteps reg ps g' := by
  rw [evalSteps.eq_3 reg g p ps hne]
  refine congrArg (p.eval reg g >>= ·) (funext fun v => ?_)
  cases v <;> rfl

/-- Two lists of steps in a row: the second one runs on the grid that the first one gives. -/
theorem similar_append {xs ys : List Program} (hx : xs ≠ []) (hy : ys ≠ []) (g : Grid)
    (step : String) :
    Similar (evalSteps reg (xs ++ ys) g)
      (evalSteps reg xs g >>= fun v => v.asGrid step >>= fun g' => evalSteps reg ys g') := by
  induction xs generalizing g with
  | nil => exact absurd rfl hx
  | cons p ps ih =>
    rw [List.cons_append, evalSteps_cons p (List.append_ne_nil_of_right_ne_nil ps hy)]
    by_cases hps : ps = []
    · -- the last step of the first list is named by itself or by the given text
      subst hps
      rw [evalSteps_singleton, List.nil_append]
      refine (Similar.refl _).bind fun v => ?_
      exact (v.similar_asGrid p.render step).bind fun g' => .refl _
    · rw [evalSteps_cons p hps]
      simp only [bind_assoc]
      refine (Similar.refl _).bind fun v => (Similar.refl _).bind fun g' => ?_
      exact ih hps g'

/-! ## Brackets -/

/-- A single step costs what it costs as a program, when that is in range. -/
theorem costFrom_singleton {p : Program} (hle : ∀ total, p.cost reg = .ok total → total ≤ maxCost) :
    costFrom reg 0 [p] = p.cost reg := by
  rw [costFrom]
  cases hcost : p.cost reg with
  | error fault => rfl
  | ok c => rw [ok_bind, Nat.zero_add, if_pos (hle c hcost), costFrom]

/-- A program costs what its steps cost, when that is in range. -/
theorem costFrom_asSteps {p : Program} (hle : ∀ total, p.cost reg = .ok total → total ≤ maxCost) :
    costFrom reg 0 p.asSteps = p.cost reg := by
  cases p with
  | call name args => exact costFrom_singleton hle
  | compose steps => rw [asSteps, cost]
  | literal v => exact costFrom_singleton hle

/-! ## Leaves in a row -/

/-- A solid program has a leaf. -/
theorem leaves_ne_nil : ∀ p : Program, p.Solid → p.leaves ≠ []
  | .call _ _, _ => List.cons_ne_nil _ _
  | .literal _, _ => List.cons_ne_nil _ _
  | .compose [], h => absurd rfl h.1
  | .compose (p :: ps), h => by
    rw [leaves, leavesAll]
    exact List.append_ne_nil_of_left_ne_nil (leaves_ne_nil p h.2.1) _

mutual

/-- A program evaluates to what its leaves in a row evaluate to. -/
theorem similar_leaves : ∀ (p : Program) (g : Grid), p.Solid →
    Similar (p.eval reg g) (evalSteps reg p.leaves g)
  | .call name args, g, _ => by
    show Similar _ (evalSteps reg [.call name args] g)
    rw [evalSteps_singleton]
    exact .refl _
  | .literal v, g, _ => by
    show Similar _ (evalSteps reg [.literal v] g)
    rw [evalSteps_singleton]
    exact .refl _
  | .compose steps, g, h => by
    rw [eval, leaves]
    exact similar_leavesAll steps g h.1 h.2

/-- Steps evaluate to what their leaves in a row evaluate to. -/
theorem similar_leavesAll : ∀ (ps : List Program) (g : Grid), ps ≠ [] →
    ProperAll (fun _ => True) ps → Similar (evalSteps reg ps g) (evalSteps reg (leavesAll ps) g)
  | [], _, hne, _ => absurd rfl hne
  | [p], g, _, h => by
    rw [evalSteps_singleton, leavesAll, leavesAll, List.append_nil]
    exact similar_leaves p g h.1
  | p :: q :: ps, g, _, h => by
    have hfirst := similar_leaves p g h.1
    have hrest := fun g' => similar_leavesAll (q :: ps) g' (List.cons_ne_nil q ps) h.2
    have hne : leavesAll (q :: ps) ≠ [] := leaves_ne_nil (.compose (q :: ps))
      ⟨List.cons_ne_nil q ps, h.2⟩
    rw [evalSteps_cons p (List.cons_ne_nil q ps), leavesAll]
    refine Similar.trans ?_ (similar_append (leaves_ne_nil p h.1) hne g p.render).symm
    exact hfirst.bind fun v => (Similar.refl _).bind fun g' => hrest g'

end

/-- The composition of the leaves. -/
def flat (p : Program) : Program := .compose p.leaves

/-- A solid program evaluates to what the composition of its leaves evaluates to. -/
theorem similar_flat {p : Program} (h : p.Solid) (g : Grid) :
    Similar (p.eval reg g) (p.flat.eval reg g) := by
  rw [flat, eval]
  exact similar_leaves p g h

/-- Solid programs with the same leaves evaluate to the same. -/
theorem similar_of_leaves_eq {p q : Program} (hp : p.Solid) (hq : q.Solid)
    (h : p.leaves = q.leaves) (g : Grid) : Similar (p.eval reg g) (q.eval reg g) := by
  have hflat : p.flat = q.flat := by rw [flat, flat, h]
  exact (similar_flat hp g).trans (hflat ▸ (similar_flat hq g).symm)

/-! ## Single steps -/

/-- One composition of a single step, anywhere in the program, is replaced by that step; but no
composition of a literal that is an argument. -/
inductive Unwraps : Program → Program → Prop where
  /-- the program is the composition -/
  | here (step : Program) : Unwraps (.compose [step]) step
  /-- the composition is in a step -/
  | step {p q : Program} (before after : List Program) (h : Unwraps p q) :
    Unwraps (.compose (before ++ p :: after)) (.compose (before ++ q :: after))
  /-- the composition is in an argument, which does not become a literal -/
  | argument {p q : Program} (name : String) (before after : List Program) (h : Unwraps p q)
    (hq : ∀ v, q ≠ .literal v) :
    Unwraps (.call name (before ++ p :: after)) (.call name (before ++ q :: after))

/-- A literal has nothing to unwrap. -/
theorem Unwraps.ne_literal {p q : Program} (h : Unwraps p q) (v : Value) : p ≠ .literal v := by
  cases h <;> exact Program.noConfusion

/-- Steps evaluate to the same when one of them is exchanged for one that does. -/
theorem similar_evalSteps {p q : Program} (h : ∀ g, Similar (p.eval reg g) (q.eval reg g))
    (before after : List Program) (g : Grid) :
    Similar (evalSteps reg (before ++ p :: after) g) (evalSteps reg (before ++ q :: after) g) := by
  induction before generalizing g with
  | nil =>
    rw [List.nil_append, List.nil_append]
    by_cases hafter : after = []
    · subst hafter
      rw [evalSteps_singleton, evalSteps_singleton]
      exact h g
    · rw [evalSteps_cons p hafter, evalSteps_cons q hafter]
      exact (h g).bind fun v => (v.similar_asGrid p.render q.render).bind fun g' => .refl _
  | cons first before ih =>
    have hne : ∀ x : Program, before ++ x :: after ≠ [] := fun x =>
      List.append_ne_nil_of_right_ne_nil before (List.cons_ne_nil x after)
    rw [List.cons_append, List.cons_append, evalSteps_cons first (hne p), evalSteps_cons first (hne q)]
    exact (Similar.refl _).bind fun v => (Similar.refl _).bind fun g' => ih g'

/-- Arguments are refused for the first one that is no literal, whatever else it is. -/
theorem literals_append {p q : Program} (hp : ∀ v, p ≠ .literal v) (hq : ∀ v, q ≠ .literal v)
    (name : String) (index : Nat) (before after : List Program) :
    literals name index (before ++ p :: after) = literals name index (before ++ q :: after) := by
  induction before generalizing index with
  | nil =>
    cases p with
    | literal v => exact absurd rfl (hp v)
    | _ =>
      cases q with
      | literal v => exact absurd rfl (hq v)
      | _ => rfl
  | cons first before ih =>
    cases first with
    | literal v =>
      rw [List.cons_append, List.cons_append, literals, literals, ih (index + 1)]
    | _ => rfl

/-- Unwrapping a single step changes nothing. -/
theorem Unwraps.similar {p q : Program} (h : Unwraps p q) (g : Grid) :
    Similar (p.eval reg g) (q.eval reg g) := by
  induction h generalizing g with
  | here step =>
    rw [eval, evalSteps_singleton]
    exact .refl _
  | step before after _ ih =>
    rw [eval, eval]
    exact similar_evalSteps ih before after g
  | argument name before after h hq _ =>
    rw [eval, eval, literals_append h.ne_literal hq]
    exact .refl _

/-- **Nesting has no meaning of its own.**  A program, all of whose compositions have steps,
evaluates to what the composition of its leaves evaluates to, value or fault, up to the text of a
step without a grid; and so does the program in which a composition of a single step is replaced by
that step, at any node that is reached through compositions and, other than for a literal that is an
argument, anywhere else. -/
theorem eval_flat (reg : Registry) (p : Program) (hp : p.Solid) (g : Grid) :
    Similar (p.eval reg g) (p.flat.eval reg g) ∧
      (∀ path step, p.node? path = some (.compose [step]) →
        Similar (p.eval reg g) ((p.replaceAt path step).eval reg g)) ∧
      ∀ q, Unwraps p q → Similar (p.eval reg g) (q.eval reg g) := by
  refine ⟨similar_flat hp g, fun path step hnode => ?_, fun q h => h.similar g⟩
  have hstep : step.Solid := (hp.of_node? hnode).2.1
  have hsame : step.leaves = (compose [step]).leaves := by
    rw [leaves, leavesAll, leavesAll, List.append_nil]
  exact similar_of_leaves_eq hp (hp.replaceAt hnode hstep) (leaves_replaceAt hnode hsame).symm g

/-- Compositions of a single step at two places, one of them around a number that ends a step. -/
def nested : Program :=
  .compose
    [.compose [.apply "rotate90" [.int 1]],
      .compose [.apply "tile_h" [.int 2], .compose [.apply "count_color" [.int 3]]],
      .apply "transpose" []]

/-- A call whose argument is a composition. -/
def wrappedCall (p : Program) : Program := .call "rotate90" [.compose [p]]

/-- The nested program fails because its second step gives a number; its leaves in a row fail for
the same reason under another name, and so does the program without the inner nesting.  A call with an
argument in two pairs of brackets is refused, and so it is with one pair. -/
theorem eval_flat_nested :
    nested.Solid ∧ nested.node? [1, 1] = some (.compose [.apply "count_color" [.int 3]]) ∧
      nested.eval .standard (.dot 3) = .error (.noGrid "(tile_h(2) >> (count_color(3)))") ∧
      nested.flat.eval .standard (.dot 3) = .error (.noGrid "count_color(3)") ∧
      Similar (nested.eval .standard (.dot 3)) (nested.flat.eval .standard (.dot 3)) ∧
      Similar (nested.eval .standard (.dot 3))
        ((nested.replaceAt [1, 1] (.apply "count_color" [.int 3])).eval .standard (.dot 3)) ∧
      (wrappedCall (.compose [.literal (.int 1)])).eval .standard (.dot 3) =
        .error (.notLiteral "rotate90" 0) ∧
      Similar ((wrappedCall (.compose [.literal (.int 1)])).eval .standard (.dot 3))
        ((wrappedCall (.literal (.int 1))).eval .standard (.dot 3)) := by
  have hsolid : nested.Solid := by
    simp [nested, Solid, Proper, ProperAll, apply]
  have hnode : nested.node? [1, 1] = some (.compose [.apply "count_color" [.int 3]]) := rfl
  have hwrapped : (wrappedCall (.compose [.literal (.int 1)])).Solid := by
    simp [wrappedCall, Solid, Proper, ProperAll]
  have hunwraps : Unwraps (wrappedCall (.compose [.literal (.int 1)]))
      (wrappedCall (.literal (.int 1))) :=
    .argument "rotate90" [] [] (.step [] [] (.here _)) fun _ => Program.noConfusion
  have heval := eval_flat .standard nested hsolid (.dot 3)
  exact ⟨hsolid, hnode, eq_error_of_fault? (by decide +kernel),
    eq_error_of_fault? (by decide +kernel), heval.1, heval.2.1 [1, 1] _ hnode,
    eq_error_of_fault? (by decide +kernel),
    (eval_flat .standard _ hwrapped (.dot 3)).2.2 _ hunwraps⟩

/-- A literal in brackets is no argument, and without them it is one. -/
theorem not_eval_unwrapped : ¬ ∀ (name : String) (before after : List Program) (step : Program)
    (g : Grid), Similar ((call name (before ++ .compose [step] :: after)).eval .standard g)
      ((call name (before ++ step :: after)).eval .standard g) := by
  intro h
  have hsimilar := h "rotate90" [] [] (.literal (.int 1)) ⟨2, 2, #[1, 2, 3, 4], rfl⟩
  have hrefused : (call "rotate90" [.compose [.literal (.int 1)]]).eval .standard
      ⟨2, 2, #[1, 2, 3, 4], rfl⟩ = .error (.notLiteral "rotate90" 0) :=
    eq_error_of_fault? (by decide +kernel)
  obtain ⟨v, hturned⟩ : ∃ v, (call "rotate90" [.literal (.int 1)]).eval .standard
      ⟨2, 2, #[1, 2, 3, 4], rfl⟩ = .ok v :=
    (exists_ok_of_map (f := fun _ => ()) (b := ()) (by decide +kernel)).imp fun _ => And.left
  rw [List.nil_append, List.nil_append, hrefused, hturned] at hsimilar
  cases hsimilar

end Program

end GridRepair
