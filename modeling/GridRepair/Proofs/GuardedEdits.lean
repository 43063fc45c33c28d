/-
# Edits with guarded access

A second reading of the edits, in which no index is trusted.  An element of a list is read
(`Guarded.get`), replaced, inserted, removed or exchanged only where the list has room for it, and the
index after another one is there only in the range of counts (`Guarded.next`); anything else is a
breach.  The edits are written over these, each with the checks that it makes beforehand.  Paths are
followed by lookups, which need no guard.

The two readings agree (`Guarded.apply_eq`): the checks keep the accesses inside the lists.  What they
do not keep in its range is the successor of the largest index.  A reordering there ends in a breach,
and it is the only edit that neither applies nor is malformed (`Edit.apply_answers`).
-/
import GridRepair.Proofs.Documents
import GridRepair.Proofs.Editing

namespace GridRepair

/-! ## Lists with guarded access -/

namespace Guarded

variable {α : Type} {xs : List α} {x : α} {i : Nat}

/-- A result under a condition, without which it is a breach. -/
def within (c : Prop) [Decidable c] (x : α) : Except Fault α :=
  if c then .ok x else .error (.breach .index)

/-- The element at an index; without one it is a breach. -/
def get (xs : List α) (i : Nat) : Except Fault α :=
  match xs[i]? with
  | some x => .ok x
  | none => .error (.breach .index)

/-- The list with another element at an index. -/
def set (xs : List α) (i : Nat) (x : α) : Except Fault (List α) := within (i < xs.length) (xs.set i x)

/-- The list with one more element before an index, or after its last one. -/
def insert (xs : List α) (i : Nat) (x : α) : Except Fault (List α) :=
  within (i ≤ xs.length) (xs.insertIdx i x)

/-- The list without the element at an index. -/
def remove (xs : List α) (i : Nat) : Except Fault (List α) :=
  within (i < xs.length) (xs.eraseIdx i)

/-- The list with the elements at two indices exchanged. -/
def exchange (xs : List α) (i j : Nat) : Except Fault (List α) := do
  let x ← get xs i
  let y ← get xs j
  let ys ← set xs i y
  set ys j x

/-- The index after another one. -/
def next (i : Nat) : Except Fault Nat := within (i < maxCount) (i + 1)

theorem get_eq (h : xs[i]? = some x) : get xs i = .ok x := by
  rw [get, h]

theorem set_eq (h : i < xs.length) : set xs i x = .ok (xs.set i x) := if_pos h

theorem insert_eq (h : i ≤ xs.length) : insert xs i x = .ok (xs.insertIdx i x) := if_pos h

theorem remove_eq (h : i < xs.length) : remove xs i = .ok (xs.eraseIdx i) := if_pos h

-- past the end, the guard is hit
example : remove [7, 8] 2 = .error (.breach .index) := rfl

theorem next_eq (h : i < maxCount) : next i = .ok (i + 1) := if_pos h

/-- Neighbors can be exchanged where there are two of them. -/
theorem exchange_eq (h : i + 1 < xs.length) :
    exchange xs i (i + 1) = .ok (Program.exchange i xs) := by
  obtain ⟨before, first, second, after, rfl, rfl⟩ := Program.exists_split_of_lt h
  have hfirst : (before ++ first :: second :: after)[before.length]? = some first := by simp
  have hsecond : (before ++ first :: second :: after)[before.length + 1]? = some second := by simp
  rw [exchange, get_eq hfirst, ok_bind, get_eq hsecond, ok_bind, set_eq (by omega), ok_bind,
    set_eq (by rwa [List.length_set]), Program.exchange_append]
  simp

/-! ## Edits over guarded lists -/

variable {location : Path} {index : Nat} {new : Int} {step : Program}

/-- The same call with one integer argument set: one that is given, or the next one. -/
def setArgument (location : Path) (index : Nat) (new : Int) : Program → Except Fault Program
  | .call name args =>
    if index < args.length then do
      let arg ← get args index
      match arg with
      | .literal (.int _) => (set args index (.literal (.int new))).map (.call name)
      | _ => .error (.malformedEdit (.notInteger index location))
    else if index = args.length then .ok (.call name (args ++ [.literal (.int new)]))
    else .error (.malformedEdit (.skipsArgument index args.length location))
  | _ => .error (.malformedEdit (.notPrimitive location))

/-- A call in brackets of its own; other nodes stay as they are. -/
def wrap : Program → Except Fault Program
  | .call name args => Program.compose? [.call name args]
  | node => .ok node

/-- The steps of a composition, or a call as the only step, with one more before the given index. -/
def insertBelow (location : Path) (index : Nat) (step node : Program) : Except Fault Program := do
  let wrapped ← wrap node
  match wrapped with
  | .compose steps =>
    if index ≤ steps.length then (insert steps index step).map .compose
    else .error (.malformedEdit (.pastEnd index location))
  | _ => .error (.malformedEdit (.notComposition location))

/-- A composition of steps, or the only step itself. -/
def collapse (steps : List Program) : Except Fault Program :=
  if steps.length = 1 then get steps 0 else .ok (.compose steps)

/-- The steps without the one at the given index, of at least two. -/
def removeStep (location : Path) (index : Nat) (steps : List Program) : Except Fault Program :=
  if 2 ≤ steps.length ∧ index < steps.length then remove steps index >>= collapse
  else .error (.malformedEdit (.notRemovable location))

/-- The steps with those at the given index and after it exchanged. -/
def reorderStep (location : Path) (index : Nat) (steps : List Program) : Except Fault Program := do
  let follower ← next index
  if follower < steps.length then (exchange steps index follower).map .compose
  else .error (.malformedEdit (.noFollower location))

/-- The program after an edit. -/
def apply (edit : Edit) (p : Program) : Except Fault Program :=
  match edit with
  | .swap location name replacement =>
    p.modifyAt location (Edit.rename location name replacement)
  | .tweak location index _ new => p.modifyAt location (setArgument location index new)
  | .insert location index step => p.modifyAt location (insertBelow location index step)
  | .remove location =>
    match Path.split? location with
    | some (parent, index) => p.modifySteps parent (removeStep location index)
    | none => .error (.malformedEdit .removesRoot)
  | .reorder location =>
    match Path.split? location with
    | some (parent, index) => p.modifySteps parent (reorderStep location index)
    | none => .error (.malformedEdit .reordersRoot)

/-! ## Agreement -/

theorem setArgument_eq (node : Program) :
    setArgument location index new node = Edit.setArgument location index new node := by
  cases node with
  | call name args =>
    rw [setArgument, Edit.setArgument]
    cases harg : args[index]? with
    | none => rw [if_neg (Nat.not_lt.2 (List.getElem?_eq_none_iff.1 harg))]
    | some arg =>
      have hlt : index < args.length := (List.getElem?_eq_some_iff.1 harg).1
      rw [if_pos hlt, get_eq harg, ok_bind, set_eq hlt]
      cases arg with
      | literal v => cases v <;> rfl
      | call name' args' => rfl
      | compose steps => rfl
  | compose steps => rfl
  | literal v => rfl

theorem insertBelow_eq (node : Program) :
    insertBelow location index step node = Edit.insertBelow location index step node := by
  have hinsert : ∀ steps : List Program,
      (if index ≤ steps.length then (insert steps index step).map Program.compose
        else .error (.malformedEdit (.pastEnd index location))) =
      Edit.insertStep location index step steps := by
    intro steps
    rw [Edit.insertStep]
    split
    · next hindex =>
      rw [insert_eq hindex]
      rfl
    · rfl
  cases node with
  | call name args => exact hinsert [.call name args]
  | compose steps => exact hinsert steps
  | literal v => rfl

theorem collapse_eq (steps : List Program) : collapse steps = .ok (Program.collapse steps) := by
  rw [collapse]
  split
  · next hone =>
    obtain ⟨only, rfl⟩ := List.length_eq_one_iff.1 hone
    rfl
  · next hmore =>
    rw [Program.collapse.eq_def]
    split
    · exact absurd rfl hmore
    · rfl

theorem removeStep_eq (steps : List Program) :
    removeStep location index steps = Edit.removeStep location index steps := by
  rw [removeStep, Edit.removeStep]
  split
  · next hremovable => rw [remove_eq hremovable.2, ok_bind, collapse_eq]
  · rfl

theorem reorderStep_eq (steps : List Program) :
    reorderStep location index steps = Edit.reorderStep location index steps := by
  rw [reorderStep, Edit.reorderStep]
  split
  · next hrange =>
    rw [next, within, if_neg (Nat.not_lt.2 hrange)]
    rfl
  · next hrange =>
    rw [next_eq (Nat.lt_of_not_le hrange), ok_bind]
    split
    · next hfollower =>
      rw [exchange_eq hfollower]
      rfl
    · rfl

/-- The guards change nothing. -/
theorem apply_eq (edit : Edit) (p : Program) : apply edit p = edit.apply p := by
  cases edit with
  | swap location name replacement => rfl
  | tweak location index old? new =>
    exact congrArg (p.modifyAt location) (funext setArgument_eq)
  | insert location index step =>
    exact congrArg (p.modifyAt location) (funext insertBelow_eq)
  | remove location =>
    rw [apply, Edit.apply]
    cases Path.split? location with
    | none => rfl
    | some found => exact congrArg (p.modifySteps found.1) (funext removeStep_eq)
  | reorder location =>
    rw [apply, Edit.apply]
    cases Path.split? location with
    | none => rfl
    | some found => exact congrArg (p.modifySteps found.1) (funext reorderStep_eq)

end Guarded

/-! ## Answers -/

namespace Edit

open Program

variable {p node : Program} {steps : List Program} {location : Path} {index : Nat}

/-- A program, or a fault that calls the edit malformed. -/
def Answers (x : Except Fault Program) : Prop :=
  (∃ q, x = .ok q) ∨ ∃ problem, x = .error (.malformedEdit problem)

/-- A checked program is an answer when the other case calls the edit malformed. -/
theorem answers_check {c : Prop} [Decidable c] {q : Program} {problem : EditProblem} :
    Answers (if c then .ok q else .error (.malformedEdit problem)) := by
  by_cases hc : c
  · exact .inl ⟨q, if_pos hc⟩
  · exact .inr ⟨problem, if_neg hc⟩

/-- A change at a path answers when the change of the node there does. -/
theorem answers_modifyAt {change : Program → Except Fault Program}
    (h : ∀ node, p.node? location = some node → Answers (change node)) :
    Answers (p.modifyAt location change) := by
  rw [modifyAt, modify_eq]
  cases hnode : p.node? location with
  | none => exact .inr ⟨_, rfl⟩
  | some node =>
    obtain ⟨node', hresult⟩ | ⟨problem, hresult⟩ := h node hnode
    · exact .inl ⟨p.replaceAt location node', by simp only [hresult, Except.map]⟩
    · exact .inr ⟨problem, by simp only [hresult, Except.map]⟩

/-- A change of steps answers when the change of those at the path does. -/
theorem answers_modifySteps {change : List Program → Except Fault Program}
    (h : ∀ steps, p.node? location = some (.compose steps) → Answers (change steps)) :
    Answers (p.modifySteps location change) := by
  refine answers_modifyAt fun node hnode => ?_
  cases node with
  | compose steps => exact h steps hnode
  | call name args => exact .inr ⟨_, rfl⟩
  | literal v => exact .inr ⟨_, rfl⟩

theorem answers_rename {name replacement : String} (node : Program) :
    Answers (rename location name replacement node) := by
  cases node with
  | call other args => exact answers_check
  | compose steps => exact .inr ⟨_, rfl⟩
  | literal v => exact .inr ⟨_, rfl⟩

theorem answers_setArgument {new : Int} (node : Program) :
    Answers (setArgument location index new node) := by
  cases node with
  | call name args =>
    rw [setArgument]
    split
    · exact .inl ⟨_, rfl⟩
    · exact .inr ⟨_, rfl⟩
    · exact answers_check
  | compose steps => exact .inr ⟨_, rfl⟩
  | literal v => exact .inr ⟨_, rfl⟩

theorem answers_insertBelow {step : Program} (node : Program) :
    Answers (insertBelow location index step node) := by
  cases node with
  | call name args => exact answers_check
  | compose steps => exact answers_check
  | literal v => exact .inr ⟨_, rfl⟩

/-- A reordering answers in the range of indices that have a successor. -/
theorem answers_reorderStep (hrange : index < maxCount) :
    Answers (reorderStep location index steps) := by
  rw [reorderStep, if_neg (Nat.not_le_of_lt hrange)]
  exact answers_check

/-- A reordering of the steps of a composition at an index without a successor. -/
def Overflows (edit : Edit) (p : Program) : Prop :=
  ∃ parent index steps, edit = .reorder (Path.child parent index) ∧
    p.node? parent = some (.compose steps) ∧ maxCount ≤ index

/-- Such a reordering has no answer. -/
theorem apply_of_overflows {edit : Edit} (h : edit.Overflows p) :
    edit.apply p = .error (.breach .index) := by
  obtain ⟨parent, index, steps, rfl, hnode, hrange⟩ := h
  rw [apply, Path.split?_child]
  simp only [modifySteps, modifyAt, modify_eq, hnode, reorderStep, if_pos hrange, Except.map]

/-- All other edits have one. -/
theorem answers_of_not_overflows {edit : Edit} (h : ¬ edit.Overflows p) :
    Answers (edit.apply p) := by
  cases edit with
  | swap location name replacement => exact answers_modifyAt fun node _ => answers_rename node
  | tweak location index old? new => exact answers_modifyAt fun node _ => answers_setArgument node
  | insert location index step => exact answers_modifyAt fun node _ => answers_insertBelow node
  | remove location =>
    rw [apply]
    split
    · exact answers_modifySteps fun steps _ => answers_check
    · exact .inr ⟨_, rfl⟩
  | reorder location =>
    rw [apply]
    split
    · next parent index hsplit =>
      refine answers_modifySteps fun steps hnode => answers_reorderStep ?_
      refine Nat.lt_of_not_le fun hrange => h ⟨parent, index, steps, ?_, hnode, hrange⟩
      rw [Path.eq_child_of_split? hsplit]
    · exact .inr ⟨_, rfl⟩

/-- Every edit of every program applies or is malformed, and no access on the way is outside a list,
unless it reorders the steps of a composition at an index without a successor.  Then there is no
answer. -/
theorem apply_guarded (edit : Edit) (p : Program) :
    Guarded.apply edit p = edit.apply p ∧
      (edit.Overflows p ∧ edit.apply p = .error (.breach .index) ∨
        ¬ edit.Overflows p ∧ Answers (edit.apply p)) := by
  refine ⟨Guarded.apply_eq edit p, ?_⟩
  by_cases h : edit.Overflows p
  · exact .inl ⟨h, apply_of_overflows h⟩
  · exact .inr ⟨h, answers_of_not_overflows h⟩

/-- Not every edit of a program has an answer, even when both are well formed: two steps cannot be
reordered at the largest index. -/
theorem not_answers_at_maxCount :
    ¬ ∀ (edit : Edit) (p : Program), edit.WellFormed → p.WellFormed → Answers (edit.apply p) := by
  intro h
  have hedit : (reorder [maxCount]).WellFormed := by
    simp [WellFormed, Path.InRange]
  have hprogram : (compose [.apply "reflect_h" [], .apply "transpose" []]).WellFormed := by
    simp [Program.WellFormed, Proper, ProperAll, Program.apply]
  obtain ⟨q, hq⟩ | ⟨problem, hproblem⟩ := h _ _ hedit hprogram
  · cases hq
  · cases hproblem

end Edit

end GridRepair
