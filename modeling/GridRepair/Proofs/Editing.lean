/-
# What an edit changes

An edit that applies changes the node at its site and no node elsewhere.  Each kind of edit has one
lemma that says when it applies and what stands at the site afterwards (`apply_swap_eq_ok_iff` and the
four after it); whatever else is said about edits is drawn from these.

To the leaves, every edit is the exchange of one block for another (`Program.Rewrites`): a call for the
same call with another name or argument, nothing for the leaves of a new step, the leaves of a step for
nothing, and those of two neighbors for the same in the other order.  The brackets that a call gets
together with a neighbor, and those that the last remaining step loses, do not show there.  What the
blocks are is `Edit.Effect`, and `Edit.effect_of_apply` the result.
-/
import GridRepair.Proofs.Addresses

namespace GridRepair

namespace Program

variable {p q node node' : Program} {path : Path} {steps : List Program} {i : Nat}

/-! ## Nesting -/

mutual

/-- The nesting of a program: its compositions, with the same call for every leaf. -/
def outline : Program → Program
  | .compose steps => .compose (outlineAll steps)
  | _ => identity

/-- The nesting of a list of programs. -/
def outlineAll : List Program → List Program
  | [] => []
  | p :: ps => outline p :: outlineAll ps

end

theorem outlineAll_eq_map (ps : List Program) : outlineAll ps = ps.map outline := by
  induction ps with
  | nil => rfl
  | cons p ps ih => rw [outlineAll, ih, List.map_cons]

/-- A replacement by a program of the same nesting keeps the nesting. -/
theorem outline_replaceAt (h : p.node? path = some node) (hsame : node'.outline = node.outline) :
    (p.replaceAt path node').outline = p.outline := by
  induction path generalizing p with
  | nil =>
    obtain rfl := Option.some.inj h
    exact hsame
  | cons i path ih =>
    obtain ⟨steps, step, rfl, hstep, hnode⟩ := exists_step_of_node? h
    obtain ⟨hi, rfl⟩ := List.getElem?_eq_some_iff.1 hstep
    rw [replaceAt_compose hstep, outline, outline, outlineAll_eq_map, outlineAll_eq_map,
      List.map_set, ih hnode, ← List.map_set, List.set_getElem_self hi]

/-! ## Lists of steps -/

/-- Steps in a row have their leaves in a row. -/
theorem leavesAll_append (xs ys : List Program) :
    leavesAll (xs ++ ys) = leavesAll xs ++ leavesAll ys := by
  simp only [leavesAll_eq_flatMap, List.flatMap_append]

/-- The leaves after an insertion: those of earlier steps, of the new step and of the others. -/
theorem leavesAll_insertIdx (hi : i ≤ steps.length) (step : Program) :
    leavesAll (steps.insertIdx i step) =
      leavesAll (steps.take i) ++ step.leaves ++ leavesAll (steps.drop i) := by
  induction i generalizing steps with
  | zero => rfl
  | succ i ih =>
    cases steps with
    | nil => cases hi
    | cons s steps =>
      rw [List.insertIdx_succ_cons, leavesAll, ih (Nat.le_of_succ_le_succ hi), List.take_succ_cons,
        leavesAll, List.drop_succ_cons]
      simp only [List.append_assoc]

/-- The leaves after a removal: those of earlier and of later steps. -/
theorem leavesAll_eraseIdx (steps : List Program) (i : Nat) :
    leavesAll (steps.eraseIdx i) = leavesAll (steps.take i) ++ leavesAll (steps.drop (i + 1)) := by
  rw [List.eraseIdx_eq_take_drop_succ, leavesAll_append]

/-- The leaves of steps are those before a step, those of the step and those after it. -/
theorem leavesAll_eq_around {step : Program} (h : steps[i]? = some step) :
    leavesAll steps =
      leavesAll (steps.take i) ++ step.leaves ++ leavesAll (steps.drop (i + 1)) := by
  obtain ⟨hi, rfl⟩ := List.getElem?_eq_some_iff.1 h
  rw [← leavesAll_set h, List.set_getElem_self hi]

/-- Without brackets around a single step, the leaves are the same. -/
theorem leaves_collapse (steps : List Program) : (collapse steps).leaves = leavesAll steps := by
  rw [collapse.eq_def]
  split
  · rw [leavesAll, leavesAll, List.append_nil]
  · rfl

/-- Proper steps, of which there is one, make a proper program, with brackets or without. -/
theorem proper_collapse {P : Value → Prop} (hne : steps ≠ []) (h : ProperAll P steps) :
    (collapse steps).Proper P := by
  rw [collapse.eq_def]
  split
  · exact h.1
  · exact ⟨hne, h⟩

/-- A step with a successor, between the steps before it and those after both. -/
theorem exists_split_of_lt {α : Type} {xs : List α} (h : i + 1 < xs.length) :
    ∃ before x y after, xs = before ++ x :: y :: after ∧ before.length = i := by
  refine ⟨xs.take i, xs[i], xs[i + 1], xs.drop (i + 2), ?_, by rw [List.length_take]; omega⟩
  rw [← List.drop_eq_getElem_cons h, ← List.drop_eq_getElem_cons (Nat.lt_of_succ_lt h),
    List.take_append_drop]

/-- An exchange is between the elements at the index and after it. -/
theorem exchange_append {α : Type} (before after : List α) (x y : α) :
    exchange before.length (before ++ x :: y :: after) = before ++ y :: x :: after := by
  induction before with
  | nil => rfl
  | cons b before ih => rw [List.cons_append, List.length_cons, exchange, ih, List.cons_append]

/-- An exchange keeps the elements of a list. -/
theorem exchange_perm {α : Type} (index : Nat) (xs : List α) : (exchange index xs).Perm xs := by
  induction index generalizing xs with
  | zero =>
    cases xs with
    | nil => exact .refl _
    | cons x xs =>
      cases xs with
      | nil => exact .refl _
      | cons y ys => exact .swap x y ys
  | succ index ih =>
    cases xs with
    | nil => exact .refl _
    | cons x xs => exact (ih xs).cons x

/-- The leaves of steps, with two neighbors set apart. -/
theorem leavesAll_neighbors (before after : List Program) (first second : Program) :
    leavesAll (before ++ first :: second :: after) =
      leavesAll before ++ (first.leaves ++ second.leaves) ++ leavesAll after := by
  rw [leavesAll_append, leavesAll, leavesAll]
  simp only [List.append_assoc]

/-! ## Blocks of leaves -/

/-- The leaves of the programs differ in one block: `old` in the first one and `new` in the second,
between the same leaves before and after it. -/
structure Rewrites (p q : Program) (before old new after : List Program) : Prop where
  leaves_left : p.leaves = before ++ old ++ after
  leaves_right : q.leaves = before ++ new ++ after

/-- The leaves of the exchanged block are leaves of the program. -/
theorem Rewrites.mem_left {before old new after : List Program} {leaf : Program}
    (h : p.Rewrites q before old new after) (hleaf : leaf ∈ old) : leaf ∈ p.leaves := by
  rw [h.leaves_left]
  exact List.mem_append_left _ (List.mem_append_right _ hleaf)

/-- Leaves that the two blocks have in common on either side can be counted outside. -/
theorem Rewrites.narrow {before left old new right after : List Program}
    (h : p.Rewrites q before (left ++ old ++ right) (left ++ new ++ right) after) :
    p.Rewrites q (before ++ left) old new (right ++ after) := by
  constructor
  · rw [h.leaves_left]
    simp only [List.append_assoc]
  · rw [h.leaves_right]
    simp only [List.append_assoc]

/-- A replacement exchanges the leaves of the node. -/
theorem rewrites_replaceAt (h : p.node? path = some node) :
    p.Rewrites (p.replaceAt path node') (p.leavesBefore path) node.leaves node'.leaves
      (p.leavesAfter path) :=
  ⟨leaves_eq_around h, leaves_replaceAt_eq h⟩

end Program

namespace Edit

open Program

variable {p q node node' step : Program} {location path : Path} {index : Nat} {new : Int}

/-! ## When an edit applies -/

/-- A swap applies to a call of the name, which keeps its arguments. -/
theorem apply_swap_eq_ok_iff {name replacement : String} :
    (swap location name replacement).apply p = .ok q ↔
      ∃ args, p.node? location = some (.call name args) ∧
        p.replaceAt location (.call replacement args) = q := by
  rw [apply, modifyAt, modify_eq_ok_iff]
  constructor
  · rintro ⟨node, node', hnode, hresult, rfl⟩
    cases node with
    | call other args =>
      obtain ⟨rfl, rfl⟩ := check_eq_ok.1 hresult
      exact ⟨args, hnode, rfl⟩
    | compose steps => cases hresult
    | literal v => cases hresult
  · rintro ⟨args, hnode, rfl⟩
    exact ⟨_, _, hnode, if_pos rfl, rfl⟩

/-- An integer can be set at an index of the arguments: there is one, or the index is the next. -/
def IntegerSlot (args : List Program) (index : Nat) : Prop :=
  index ≤ args.length ∧ ∀ arg ∈ args[index]?, ∃ old, arg = .literal (.int old)

/-- The arguments with an integer at an index, in place of the one there or after the last one. -/
def withArgument (args : List Program) (index : Nat) (new : Int) : List Program :=
  args.take index ++ .literal (.int new) :: args.drop (index + 1)

/-- Inside the arguments, one of them is replaced. -/
theorem withArgument_of_lt {args : List Program} (h : index < args.length) :
    withArgument args index new = args.set index (.literal (.int new)) := by
  rw [List.set_eq_take_append_cons_drop, if_pos h, withArgument]

/-- After the arguments, one is added. -/
theorem withArgument_length (args : List Program) :
    withArgument args args.length new = args ++ [.literal (.int new)] := by
  rw [withArgument, List.take_length, List.drop_of_length_le (Nat.le_succ _)]

/-- An argument of a call can be set where there is a slot for it. -/
theorem setArgument_eq_ok_iff {name : String} {args : List Program} :
    setArgument location index new (.call name args) = .ok node' ↔
      IntegerSlot args index ∧ .call name (withArgument args index new) = node' := by
  rw [setArgument, IntegerSlot]
  cases harg : args[index]? with
  | none =>
    have hle : args.length ≤ index := List.getElem?_eq_none_iff.1 harg
    rw [check_eq_ok, and_iff_left fun arg hmem => absurd hmem (Option.not_mem_none arg)]
    constructor
    · rintro ⟨rfl, rfl⟩
      exact ⟨Nat.le_refl _, by rw [withArgument_length]⟩
    · rintro ⟨hge, rfl⟩
      obtain rfl := Nat.le_antisymm hge hle
      exact ⟨rfl, by rw [withArgument_length]⟩
  | some arg =>
    have hlt : index < args.length := (List.getElem?_eq_some_iff.1 harg).1
    rw [withArgument_of_lt hlt, and_iff_right (Nat.le_of_lt hlt)]
    split
    · next old heq =>
      cases heq
      simp
    · next hother heq =>
      cases heq
      refine iff_of_false (fun h => ?_) fun h => ?_
      · cases h
      · obtain ⟨old, hold⟩ := h.1 arg rfl
        exact hother old hold
    · next heq => cases heq

/-- A tweak applies to a call with a slot at the index. -/
theorem apply_tweak_eq_ok_iff {old? : Option Int} :
    (tweak location index old? new).apply p = .ok q ↔
      ∃ name args, p.node? location = some (.call name args) ∧ IntegerSlot args index ∧
        p.replaceAt location (.call name (withArgument args index new)) = q := by
  rw [apply, modifyAt, modify_eq_ok_iff]
  constructor
  · rintro ⟨node, node', hnode, hresult, rfl⟩
    cases node with
    | call name args =>
      obtain ⟨hslot, rfl⟩ := setArgument_eq_ok_iff.1 hresult
      exact ⟨name, args, hnode, hslot, rfl⟩
    | compose steps => cases hresult
    | literal v => cases hresult
  · rintro ⟨name, args, hnode, hslot, rfl⟩
    exact ⟨_, _, hnode, setArgument_eq_ok_iff.2 ⟨hslot, rfl⟩, rfl⟩

/-- An insertion applies to a node that is no literal, up to the end of its steps. -/
theorem apply_insert_eq_ok_iff :
    (insert location index step).apply p = .ok q ↔
      ∃ node, p.node? location = some node ∧ (∀ v, node ≠ .literal v) ∧
        index ≤ node.asSteps.length ∧
        p.replaceAt location (.compose (node.asSteps.insertIdx index step)) = q := by
  have hbelow : ∀ node node' : Program, insertBelow location index step node = .ok node' ↔
      (∀ v, node ≠ .literal v) ∧ index ≤ node.asSteps.length ∧
        .compose (node.asSteps.insertIdx index step) = node' := by
    intro node node'
    cases node with
    | call name args => simp [insertBelow, insertStep, asSteps, check_eq_ok]
    | compose steps => simp [insertBelow, insertStep, asSteps, check_eq_ok]
    | literal v => simp [insertBelow]
  rw [apply, modifyAt, modify_eq_ok_iff]
  simp only [hbelow]
  constructor
  · rintro ⟨node, _, hnode, ⟨hliteral, hindex, rfl⟩, rfl⟩
    exact ⟨node, hnode, hliteral, hindex, rfl⟩
  · rintro ⟨node, hnode, hliteral, hindex, rfl⟩
    exact ⟨node, _, hnode, ⟨hliteral, hindex, rfl⟩, rfl⟩

/-- A change of steps applies to a composition. -/
theorem modifySteps_eq_ok_iff {change : List Program → Except Fault Program} :
    p.modifySteps path change = .ok q ↔
      ∃ steps node', p.node? path = some (.compose steps) ∧ change steps = .ok node' ∧
        p.replaceAt path node' = q := by
  rw [modifySteps, modifyAt, modify_eq_ok_iff]
  constructor
  · rintro ⟨node, node', hnode, hresult, rfl⟩
    cases node with
    | call name args => cases hresult
    | compose steps => exact ⟨steps, node', hnode, hresult, rfl⟩
    | literal v => cases hresult
  · rintro ⟨steps, node', hnode, hresult, rfl⟩
    exact ⟨_, node', hnode, hresult, rfl⟩

/-- A removal applies to one of at least two steps; the last remaining one loses its brackets. -/
theorem apply_remove_eq_ok_iff :
    (remove location).apply p = .ok q ↔
      ∃ parent index steps, location = Path.child parent index ∧
        p.node? parent = some (.compose steps) ∧ 2 ≤ steps.length ∧ index < steps.length ∧
        p.replaceAt parent (collapse (steps.eraseIdx index)) = q := by
  rw [apply]
  constructor
  · intro h
    split at h
    · next parent index hsplit =>
      obtain ⟨steps, node', hnode, hresult, rfl⟩ := modifySteps_eq_ok_iff.1 h
      obtain ⟨hlength, rfl⟩ := check_eq_ok.1 hresult
      exact ⟨parent, index, steps, Path.eq_child_of_split? hsplit, hnode, hlength.1, hlength.2, rfl⟩
    · cases h
  · rintro ⟨parent, index, steps, rfl, hnode, htwo, hindex, rfl⟩
    rw [Path.split?_child]
    exact modifySteps_eq_ok_iff.2 ⟨steps, _, hnode, if_pos ⟨htwo, hindex⟩, rfl⟩

/-- A reordering applies to a step with a successor. -/
theorem apply_reorder_eq_ok_iff :
    (reorder location).apply p = .ok q ↔
      ∃ parent index steps, location = Path.child parent index ∧
        p.node? parent = some (.compose steps) ∧ index < maxCount ∧ index + 1 < steps.length ∧
        p.replaceAt parent (.compose (exchange index steps)) = q := by
  rw [apply]
  constructor
  · intro h
    split at h
    · next parent index hsplit =>
      obtain ⟨steps, node', hnode, hresult, rfl⟩ := modifySteps_eq_ok_iff.1 h
      rw [reorderStep] at hresult
      split at hresult
      · cases hresult
      · next hrange =>
        obtain ⟨hlength, rfl⟩ := check_eq_ok.1 hresult
        exact ⟨parent, index, steps, Path.eq_child_of_split? hsplit, hnode, Nat.lt_of_not_le hrange,
          hlength, rfl⟩
    · cases h
  · rintro ⟨parent, index, steps, rfl, hnode, hrange, hlength, rfl⟩
    rw [Path.split?_child]
    refine modifySteps_eq_ok_iff.2 ⟨steps, _, hnode, ?_, rfl⟩
    rw [reorderStep, if_neg (Nat.not_le_of_lt hrange), if_pos hlength]

/-! ## What an edit does -/

/-- The node that an edit changes: the one at its location, or the composition around it. -/
def site : Edit → Path
  | .swap location _ _ => location
  | .tweak location _ _ _ => location
  | .insert location _ _ => location
  | .remove location => location.dropLast
  | .reorder location => location.dropLast

/-- An edit replaces the node at its site. -/
theorem exists_replaceAt_of_apply {edit : Edit} (h : edit.apply p = .ok q) :
    ∃ node node', p.node? edit.site = some node ∧ p.replaceAt edit.site node' = q := by
  cases edit with
  | swap location name replacement =>
    obtain ⟨args, hnode, hq⟩ := apply_swap_eq_ok_iff.1 h
    exact ⟨_, _, hnode, hq⟩
  | tweak location index old? new =>
    obtain ⟨name, args, hnode, -, hq⟩ := apply_tweak_eq_ok_iff.1 h
    exact ⟨_, _, hnode, hq⟩
  | insert location index step =>
    obtain ⟨node, hnode, -, -, hq⟩ := apply_insert_eq_ok_iff.1 h
    exact ⟨_, _, hnode, hq⟩
  | remove location =>
    obtain ⟨parent, index, steps, rfl, hnode, -, -, hq⟩ := apply_remove_eq_ok_iff.1 h
    rw [site, Path.child, List.dropLast_concat]
    exact ⟨_, _, hnode, hq⟩
  | reorder location =>
    obtain ⟨parent, index, steps, rfl, hnode, -, -, hq⟩ := apply_reorder_eq_ok_iff.1 h
    rw [site, Path.child, List.dropLast_concat]
    exact ⟨_, _, hnode, hq⟩

/-- What an edit does to a program, in terms of leaves.  A swap exchanges the call at its location for
the call with the other name, a tweak for the call with one other argument, and neither touches the
nesting.  An insertion puts the leaves of the new step before those of the step at its index, or after
the last one.  A removal takes away the leaves of the step at its location, and a reordering exchanges
them with the leaves of the step after it. -/
def Effect (p q : Program) : Edit → Prop
  | .swap location name replacement =>
    q.outline = p.outline ∧
      ∃ args, p.node? location = some (.call name args) ∧
        p.Rewrites q (p.leavesBefore location) [.call name args] [.call replacement args]
          (p.leavesAfter location)
  | .tweak location index _ new =>
    q.outline = p.outline ∧
      ∃ name args, p.node? location = some (.call name args) ∧ IntegerSlot args index ∧
        p.Rewrites q (p.leavesBefore location) [.call name args]
          [.call name (withArgument args index new)] (p.leavesAfter location)
  | .insert location index step =>
    ∃ node, p.node? location = some node ∧ index ≤ node.asSteps.length ∧
      p.Rewrites q (p.leavesBefore location ++ leavesAll (node.asSteps.take index)) [] step.leaves
        (leavesAll (node.asSteps.drop index) ++ p.leavesAfter location)
  | .remove location =>
    ∃ step, p.node? location = some step ∧
      p.Rewrites q (p.leavesBefore location) step.leaves [] (p.leavesAfter location)
  | .reorder location =>
    ∃ parent index first second, location = Path.child parent index ∧
      p.node? location = some first ∧ p.node? (parent.child (index + 1)) = some second ∧
      p.Rewrites q (p.leavesBefore location) (first.leaves ++ second.leaves)
        (second.leaves ++ first.leaves) (p.leavesAfter (parent.child (index + 1)))

/-- An edit that applies has its effect. -/
theorem effect {edit : Edit} (h : edit.apply p = .ok q) : edit.Effect p q := by
  cases edit with
  | swap location name replacement =>
    obtain ⟨args, hnode, rfl⟩ := apply_swap_eq_ok_iff.1 h
    exact ⟨outline_replaceAt hnode rfl, args, hnode, rewrites_replaceAt hnode⟩
  | tweak location index old? new =>
    obtain ⟨name, args, hnode, hslot, rfl⟩ := apply_tweak_eq_ok_iff.1 h
    exact ⟨outline_replaceAt hnode rfl, name, args, hnode, hslot, rewrites_replaceAt hnode⟩
  | insert location index step =>
    obtain ⟨node, hnode, -, hindex, rfl⟩ := apply_insert_eq_ok_iff.1 h
    refine ⟨node, hnode, hindex, Rewrites.narrow ?_⟩
    rw [List.append_nil, ← leavesAll_append, List.take_append_drop, leavesAll_asSteps,
      ← leavesAll_insertIdx hindex]
    exact rewrites_replaceAt hnode
  | remove location =>
    obtain ⟨parent, index, steps, rfl, hnode, -, hindex, rfl⟩ := apply_remove_eq_ok_iff.1 h
    have hstep : steps[index]? = some steps[index] := List.getElem?_eq_getElem hindex
    refine ⟨steps[index], (node?_child hnode index).trans hstep, ?_⟩
    rw [leavesBefore_child hnode, leavesAfter_child hnode]
    apply Rewrites.narrow
    have hblock : (collapse (steps.eraseIdx index)).leaves =
        leavesAll (steps.take index) ++ [] ++ leavesAll (steps.drop (index + 1)) := by
      rw [leaves_collapse, leavesAll_eraseIdx, List.append_nil]
    rw [← leavesAll_eq_around hstep, ← hblock]
    exact rewrites_replaceAt hnode
  | reorder location =>
    obtain ⟨parent, index, steps, rfl, hnode, -, hindex, rfl⟩ := apply_reorder_eq_ok_iff.1 h
    obtain ⟨before, first, second, after, rfl, rfl⟩ := exists_split_of_lt hindex
    refine ⟨parent, before.length, first, second, rfl, ?_, ?_, ?_⟩
    · rw [node?_child hnode]
      simp
    · rw [node?_child hnode]
      simp
    · have hbefore : (before ++ first :: second :: after).take before.length = before := by simp
      have hafter : (before ++ first :: second :: after).drop (before.length + 1 + 1) = after := by
        rw [Nat.add_assoc, List.drop_length_add_append]
        rfl
      rw [leavesBefore_child hnode, leavesAfter_child hnode, exchange_append, hbefore, hafter]
      apply Rewrites.narrow
      rw [← leavesAll_neighbors, ← leavesAll_neighbors]
      exact rewrites_replaceAt hnode

/-- An edit that applies leaves compositions with steps, when it inserts none without. -/
theorem solid {edit : Edit} (hp : p.Solid)
    (hstep : ∀ location index step, edit = .insert location index step → step.Solid)
    (h : edit.apply p = .ok q) : q.Solid := by
  cases edit with
  | swap location name replacement =>
    obtain ⟨args, hnode, rfl⟩ := apply_swap_eq_ok_iff.1 h
    have hargs : ProperAll _ args := hp.of_node? hnode
    exact hp.replaceAt hnode hargs
  | tweak location index old? new =>
    obtain ⟨name, args, hnode, -, rfl⟩ := apply_tweak_eq_ok_iff.1 h
    have hargs := properAll_iff.1 (hp.of_node? hnode)
    refine hp.replaceAt hnode (properAll_iff.2 fun arg harg => ?_)
    rcases List.mem_append.1 harg with harg | harg
    · exact hargs arg (List.mem_of_mem_take harg)
    · rcases List.mem_cons.1 harg with rfl | harg
      · trivial
      · exact hargs arg (List.mem_of_mem_drop harg)
  | insert location index step =>
    obtain ⟨node, hnode, -, hindex, rfl⟩ := apply_insert_eq_ok_iff.1 h
    refine hp.replaceAt hnode ⟨?_, properAll_iff.2 fun s hs => ?_⟩
    · exact List.ne_nil_of_mem ((List.mem_insertIdx hindex).2 (.inl rfl))
    · rcases (List.mem_insertIdx hindex).1 hs with rfl | hs
      · exact hstep location index s rfl
      · exact (hp.of_node? hnode).of_mem_asSteps hs
  | remove location =>
    obtain ⟨parent, index, steps, rfl, hnode, htwo, hindex, rfl⟩ := apply_remove_eq_ok_iff.1 h
    have hsteps := properAll_iff.1 (hp.of_node? hnode).2
    refine hp.replaceAt hnode (proper_collapse ?_ (properAll_iff.2 fun s hs => ?_))
    · rw [← List.length_pos_iff, List.length_eraseIdx_of_lt hindex]
      omega
    · exact hsteps s (List.mem_of_mem_eraseIdx hs)
  | reorder location =>
    obtain ⟨parent, index, steps, rfl, hnode, -, hindex, rfl⟩ := apply_reorder_eq_ok_iff.1 h
    have hsteps := properAll_iff.1 (hp.of_node? hnode).2
    have hperm := exchange_perm index steps
    refine hp.replaceAt hnode ⟨?_, properAll_iff.2 fun s hs => hsteps s (hperm.mem_iff.1 hs)⟩
    rw [← List.length_pos_iff, hperm.length_eq]
    omega

/-- Away from its site, an edit changes nothing. -/
theorem node?_of_apply {edit : Edit} (h : edit.apply p = .ok q) (hbelow : ¬ edit.site <+: path)
    (habove : ¬ path <+: edit.site) : q.node? path = p.node? path := by
  obtain ⟨node, node', hnode, rfl⟩ := exists_replaceAt_of_apply h
  exact node?_replaceAt_of_not_prefix hbelow habove

/-- An edit changes what it names and nothing else: compositions keep having steps, the leaves change
in the block that the edit is about, and nodes that are neither above nor below its site stay. -/
theorem effect_of_apply {edit : Edit} (hp : p.Solid)
    (hstep : ∀ location index step, edit = .insert location index step → step.Solid)
    (h : edit.apply p = .ok q) :
    q.Solid ∧ edit.Effect p q ∧
      ∀ path, ¬ edit.site <+: path → ¬ path <+: edit.site → q.node? path = p.node? path :=
  ⟨solid hp hstep h, effect h, fun _ => node?_of_apply h⟩

end Edit

/-- Transposing, a flip and a turn in brackets, and a step that changes nothing. -/
def Program.bracketed : Program :=
  .compose [.apply "transpose" [], .compose [.apply "reflect_h" [], .apply "rotate90" [.int 1]],
    .identity]

/-- Without the flip, the turn loses its brackets, and the other steps stay. -/
theorem Edit.effect_of_apply_bracketed :
    ∃ q, (Edit.remove [1, 0]).apply .bracketed = .ok q ∧
      q = .compose [.apply "transpose" [], .apply "rotate90" [.int 1], .identity] ∧ q.Solid ∧
      (Edit.remove [1, 0]).Effect .bracketed q ∧
      ∀ path, ¬ [1] <+: path → ¬ path <+: [1] → q.node? path = Program.bracketed.node? path := by
  have hsolid : Program.bracketed.Solid := by
    simp [Program.Solid, Program.bracketed, Program.Proper, Program.ProperAll, Program.apply,
      Program.identity]
  refine ⟨_, rfl, rfl, Edit.effect_of_apply hsolid (fun location index step h => ?_) rfl⟩
  cases h

end GridRepair
