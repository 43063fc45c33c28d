/-
# Taking edits back

An edit replaces one node, and what stood there can be put back (`replaceAt_back`).  So an edit is
undone by one that applies to the new node and makes the old one of it again: an exchange of steps by
the same exchange, a swap of names by the opposite swap, a tweak by the old integer, an insertion by
a removal (`Edit.undo_of_apply`).

The removal leaves a mark in one case.  A composition of a single step is one of two after the
insertion, and the step that remains loses its brackets.
-/
import GridRepair.Proofs.Editing

namespace GridRepair

namespace Program

variable {p node node' : Program} {path : Path}

/-- After a replacement, the node that stood at the path can be put back. -/
theorem replaceAt_back (h : p.node? path = some node) :
    (p.replaceAt path node').replaceAt path node = p := by
  rw [replaceAt_replaceAt h, replaceAt_self h]

/-- An exchange made twice changes nothing. -/
theorem exchange_exchange {α : Type} (index : Nat) (xs : List α) :
    exchange index (exchange index xs) = xs := by
  induction index generalizing xs with
  | zero =>
    cases xs with
    | nil => rfl
    | cons x xs =>
      cases xs with
      | nil => rfl
      | cons y ys => rfl
  | succ index ih =>
    cases xs with
    | nil => rfl
    | cons x xs => rw [exchange, exchange, ih]

/-- Steps make their node again, unless it was a single step in brackets. -/
theorem collapse_asSteps (h : ∀ only, node ≠ .compose [only]) : collapse node.asSteps = node := by
  cases node with
  | call name args => rfl
  | compose steps =>
    rw [asSteps, collapse.eq_def]
    split
    · next only => exact absurd rfl (h only)
    · rfl
  | literal v => rfl

/-- A node of a solid program has a step. -/
theorem Solid.asSteps_pos (hp : p.Solid) (h : p.node? path = some node) :
    0 < node.asSteps.length := by
  have hnode := hp.of_node? h
  cases node with
  | call name args => exact Nat.one_pos
  | compose steps => exact List.length_pos_iff.2 hnode.1
  | literal v => exact Nat.one_pos

end Program

namespace Edit

open Program

variable {p q step : Program} {location : Path} {index : Nat} {old new : Int}

/-! ## One edit and its opposite -/

/-- A reordering is undone by itself. -/
theorem reorder_undoes (h : (reorder location).apply p = .ok q) :
    (reorder location).apply q = .ok p := by
  obtain ⟨parent, index, steps, rfl, hnode, hrange, hindex, rfl⟩ := apply_reorder_eq_ok_iff.1 h
  refine apply_reorder_eq_ok_iff.2
    ⟨parent, index, exchange index steps, rfl, node?_replaceAt hnode, hrange, ?_, ?_⟩
  · rwa [(exchange_perm index steps).length_eq]
  · rw [exchange_exchange, replaceAt_back hnode]

/-- A swap is undone by the opposite swap. -/
theorem swap_undoes {name replacement : String}
    (h : (swap location name replacement).apply p = .ok q) :
    (swap location replacement name).apply q = .ok p := by
  obtain ⟨args, hnode, rfl⟩ := apply_swap_eq_ok_iff.1 h
  exact apply_swap_eq_ok_iff.2 ⟨args, node?_replaceAt hnode, replaceAt_back hnode⟩

/-- An integer that was replaced by another one can be set again. -/
theorem withArgument_withArgument {args : List Program}
    (h : args[index]? = some (.literal (.int old))) :
    withArgument (withArgument args index new) index old = args := by
  obtain ⟨hlt, hold⟩ := List.getElem?_eq_some_iff.1 h
  have hlt' : index < (args.set index (.literal (.int new))).length := by
    rwa [List.length_set]
  rw [withArgument_of_lt hlt, withArgument_of_lt hlt', List.set_set, ← hold,
    List.set_getElem_self hlt]

/-- A tweak of an integer is undone by the tweak that sets it again. -/
theorem tweak_undoes {name : String} {args : List Program}
    (h : (tweak location index (some old) new).apply p = .ok q)
    (hcall : p.node? location = some (.call name args))
    (hold : args[index]? = some (.literal (.int old))) :
    (tweak location index (some new) old).apply q = .ok p := by
  obtain ⟨name', args', hnode, -, rfl⟩ := apply_tweak_eq_ok_iff.1 h
  rw [hcall] at hnode
  cases hnode
  have hlt : index < args.length := (List.getElem?_eq_some_iff.1 hold).1
  have hslot : IntegerSlot (withArgument args index new) index := by
    rw [withArgument_of_lt hlt, IntegerSlot, List.length_set, List.getElem?_set_self hlt]
    exact ⟨Nat.le_of_lt hlt, fun arg harg => ⟨new, (Option.some.inj harg).symm⟩⟩
  refine apply_tweak_eq_ok_iff.2 ⟨name, _, node?_replaceAt hcall, hslot, ?_⟩
  rw [withArgument_withArgument hold, replaceAt_back hcall]

/-- After an insertion, a removal takes the new step away and leaves those that were there. -/
theorem remove_insert (hp : p.Solid) (h : (insert location index step).apply p = .ok q) :
    ∃ node, p.node? location = some node ∧
      (remove (location.child index)).apply q =
        .ok (p.replaceAt location (collapse node.asSteps)) := by
  obtain ⟨node, hnode, -, hindex, rfl⟩ := apply_insert_eq_ok_iff.1 h
  have hlength := List.length_insertIdx_of_le_length hindex step
  have hpos := hp.asSteps_pos hnode
  refine ⟨node, hnode, apply_remove_eq_ok_iff.2
    ⟨location, index, _, rfl, node?_replaceAt hnode, ?_, ?_, ?_⟩⟩
  · omega
  · omega
  · rw [List.eraseIdx_insertIdx_self, replaceAt_replaceAt hnode]

/-! ## Taking back -/

/-- Edits can be undone.  A reordering is undone by itself, a swap by the opposite swap and a tweak by
the tweak that sets the old integer again.  An insertion is undone by the removal of the new step,
except below a composition with a single step, which the removal replaces by the step. -/
theorem undo_of_apply (hp : p.Solid) :
    (∀ location q, (reorder location).apply p = .ok q → (reorder location).apply q = .ok p) ∧
    (∀ location name replacement q, (swap location name replacement).apply p = .ok q →
      (swap location replacement name).apply q = .ok p) ∧
    (∀ location index old new name args q,
      (tweak location index (some old) new).apply p = .ok q →
      p.node? location = some (.call name args) →
      args[index]? = some (.literal (.int old)) →
      (tweak location index (some new) old).apply q = .ok p) ∧
    (∀ location index step q, (insert location index step).apply p = .ok q →
      ((∀ only, p.node? location ≠ some (.compose [only])) →
        (remove (location.child index)).apply q = .ok p) ∧
      (∀ only, p.node? location = some (.compose [only]) →
        (remove (location.child index)).apply q = .ok (p.replaceAt location only))) := by
  refine ⟨fun _ _ => reorder_undoes, fun _ _ _ _ => swap_undoes,
    fun _ _ _ _ _ _ _ => tweak_undoes, fun location index step q h => ?_⟩
  obtain ⟨node, hnode, hremove⟩ := remove_insert hp h
  constructor
  · intro hmore
    have hcollapse : collapse node.asSteps = node :=
      collapse_asSteps fun only heq => hmore only (heq ▸ hnode)
    rw [hremove, hcollapse, replaceAt_self hnode]
  · intro only honly
    rw [hnode] at honly
    cases honly
    exact hremove

end Edit

/-- Transposing, and a turn in brackets of its own. -/
def Program.enclosed : Program :=
  .compose [.apply "transpose" [], .compose [.apply "rotate90" [.int 1]]]

/-- The steps can be exchanged and the turn can be changed, there and back; a step that is inserted
below the brackets takes them along when it is removed. -/
theorem Edit.undo_of_apply_enclosed :
    (∃ q, (Edit.reorder [0]).apply .enclosed = .ok q ∧
      (Edit.reorder [0]).apply q = .ok .enclosed) ∧
    (∃ q, (Edit.swap [1, 0] "rotate90" "scale").apply .enclosed = .ok q ∧
      (Edit.swap [1, 0] "scale" "rotate90").apply q = .ok .enclosed) ∧
    (∃ q, (Edit.tweak [1, 0] 0 (some 1) 3).apply .enclosed = .ok q ∧
      (Edit.tweak [1, 0] 0 (some 3) 1).apply q = .ok .enclosed) ∧
    (∃ q, (Edit.insert [0] 1 .identity).apply .enclosed = .ok q ∧
      (Edit.remove [0, 1]).apply q = .ok .enclosed) ∧
    (∃ q, (Edit.insert [1] 0 .identity).apply .enclosed = .ok q ∧
      (Edit.remove [1, 0]).apply q =
        .ok (.compose [.apply "transpose" [], .apply "rotate90" [.int 1]])) := by
  have hsolid : Program.enclosed.Solid := by
    simp [Program.Solid, Program.enclosed, Program.Proper, Program.ProperAll, Program.apply]
  obtain ⟨hreorder, hswap, htweak, hinsert⟩ := Edit.undo_of_apply hsolid
  have hcall : ∀ only, Program.enclosed.node? [0] ≠ some (.compose [only]) := by
    intro only h
    cases h
  exact ⟨⟨_, rfl, hreorder _ _ rfl⟩, ⟨_, rfl, hswap _ _ _ _ rfl⟩,
    ⟨_, rfl, htweak _ _ _ _ "rotate90" _ _ rfl rfl rfl⟩,
    ⟨_, rfl, (hinsert [0] 1 .identity _ rfl).1 hcall⟩,
    ⟨_, rfl, (hinsert [1] 0 .identity _ rfl).2 _ rfl⟩⟩

end GridRepair
