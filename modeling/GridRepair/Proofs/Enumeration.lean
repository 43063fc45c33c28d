/-
# What is proposed

A proposed edit applies, and it leads to another program (`Edit.Effective`): its place comes from the
walk over the program, and what it puts there differs from what it finds.  So no proposal is lost on
the way to the candidates (`Proposal.map_edit_candidates`).

Removals and reorderings are proposed completely.  A removal is among the proposals exactly when it
applies, and a reordering exactly when it applies and changes the program
(`Proposal.mem_edits_remove_iff`, `Proposal.mem_edits_reorder_iff`).  None is there twice, because the
edits of a node name it as their site and a walk comes to every node once
(`Proposal.nodup_flatMap_walk`).

An index has a successor as long as lists of steps are no longer than the largest count
(`Program.StepsCounted`), which lists in memory never are.
-/
import Mathlib.Data.List.Nodup
import GridRepair.Catalogue
import GridRepair.Proofs.Typing

namespace GridRepair

namespace Program

variable {p node node' : Program} {path : Path} {steps : List Program} {i : Nat}

/-- No composition has more steps than the largest count. -/
def StepsCounted (p : Program) : Prop :=
  ∀ path steps, p.node? path = some (.compose steps) → steps.length ≤ maxCount

/-- The compositions of a program are on the walk over it. -/
theorem stepsCounted_of_walk (h : ∀ x ∈ p.walk, x.2.asSteps.length ≤ maxCount) :
    p.StepsCounted := by
  intro path steps hnode
  exact h (path, .compose steps) (mem_walk_iff.2 hnode)

/-- Another node at a path makes another program. -/
theorem replaceAt_ne (h : p.node? path = some node) (hne : node' ≠ node) :
    p.replaceAt path node' ≠ p := by
  intro heq
  have hnode' : (p.replaceAt path node').node? path = some node' := node?_replaceAt h
  rw [heq, h] at hnode'
  exact hne (Option.some.inj hnode').symm

/-- A composition is none of its steps. -/
theorem ne_compose_of_mem (h : p ∈ steps) : p ≠ .compose steps := by
  intro heq
  have hlt := List.sizeOf_lt_of_mem h
  rw [heq, compose.sizeOf_spec] at hlt
  omega

/-- Without one of its steps, a composition is another program, in brackets or not. -/
theorem collapse_eraseIdx_ne (hi : i < steps.length) :
    collapse (steps.eraseIdx i) ≠ .compose steps := by
  rw [collapse.eq_def]
  split
  · next only honly =>
    apply ne_compose_of_mem
    apply List.mem_of_mem_eraseIdx (i := i)
    rw [honly]
    exact List.mem_singleton_self only
  · intro heq
    have hlength := congrArg List.length (compose.inj heq)
    rw [List.length_eraseIdx_of_lt hi] at hlength
    omega

/-- An exchange changes a list where the two elements differ. -/
theorem exchange_ne_iff {α : Type} {xs : List α} {x y : α} (hx : xs[i]? = some x)
    (hy : xs[i + 1]? = some y) : exchange i xs ≠ xs ↔ x ≠ y := by
  have hlt : i + 1 < xs.length := (List.getElem?_eq_some_iff.1 hy).1
  obtain ⟨before, x', y', after, rfl, rfl⟩ := exists_split_of_lt hlt
  have hx' : x' = x := by simpa using hx
  have hy' : y' = y := by simpa using hy
  rw [exchange_append, hx', hy', Ne, List.append_cancel_left_eq, List.cons.injEq, List.cons.injEq]
  constructor
  · intro h heq
    exact h ⟨heq.symm, heq, rfl⟩
  · intro h heq
    exact h heq.2.1

end Program

/-! ## Edits with an effect -/

namespace Edit

open Program

variable {p : Program} {location : Path} {index : Nat}

/-- The edit applies to the program and makes another program of it. -/
def Effective (edit : Edit) (p : Program) : Prop := ∃ q, edit.apply p = .ok q ∧ q ≠ p

/-- The integer that was set is an argument. -/
theorem getElem?_withArgument {args : List Program} (h : index ≤ args.length) (new : Int) :
    (withArgument args index new)[index]? = some (.literal (.int new)) := by
  unfold withArgument
  rw [List.getElem?_append_right (List.length_take_le index args), List.length_take,
    Nat.min_eq_left h, Nat.sub_self]
  rfl

/-- A reordering has an effect on neighbors that differ. -/
theorem effective_reorder_iff (hcount : p.StepsCounted) :
    (reorder location).Effective p ↔
      ∃ parent index steps first second, location = Path.child parent index ∧
        p.node? parent = some (.compose steps) ∧ steps[index]? = some first ∧
        steps[index + 1]? = some second ∧ first ≠ second := by
  unfold Effective
  simp only [apply_reorder_eq_ok_iff]
  constructor
  · rintro ⟨q, ⟨parent, index, steps, rfl, hnode, -, hindex, rfl⟩, hne⟩
    have hfirst : steps[index]? = some steps[index] := List.getElem?_eq_getElem _
    have hsecond : steps[index + 1]? = some steps[index + 1] := List.getElem?_eq_getElem _
    refine ⟨parent, index, steps, _, _, rfl, hnode, hfirst, hsecond, ?_⟩
    rw [← exchange_ne_iff hfirst hsecond]
    intro hsame
    rw [hsame] at hne
    exact hne (replaceAt_self hnode)
  · rintro ⟨parent, index, steps, first, second, rfl, hnode, hfirst, hsecond, hne⟩
    have hindex : index + 1 < steps.length := (List.getElem?_eq_some_iff.1 hsecond).1
    have hrange : index < maxCount := by
      have := hcount parent steps hnode
      omega
    refine ⟨_, ⟨parent, index, steps, rfl, hnode, hrange, hindex, rfl⟩, ?_⟩
    apply replaceAt_ne hnode
    rw [Ne, compose.injEq]
    exact (exchange_ne_iff hfirst hsecond).2 hne

end Edit

namespace Proposal

open Program

variable {reg : Registry} {p node : Program} {steps : List Program} {location : Path}
  {edit : Edit} {family : Edit.Family}

/-! ## Proposals for a node -/

/-- A value is not near itself. -/
theorem ne_of_mem_nearby {kind : Param.Kind} {n v : Int} (h : v ∈ kind.nearby n) : v ≠ n := by
  cases kind with
  | int lo hi =>
    have hmem := (List.mem_filter.1 h).1
    simp only [List.mem_cons, List.not_mem_nil, or_false] at hmem
    omega
  | color => exact of_decide_eq_true (List.mem_filter.1 h).2
  | grid => cases h

/-- Swaps of a node have an effect. -/
theorem effective_of_mem_swapsOf (hnode : p.node? location = some node)
    (h : edit ∈ swapsOf reg location node) : edit.Effective p := by
  cases node with
  | call name args =>
    obtain ⟨other, hother, rfl⟩ := List.mem_map.1 h
    have hne : other ≠ name := by
      have hchecks := (List.mem_filter.1 hother).2
      rw [Bool.and_eq_true] at hchecks
      exact of_decide_eq_true hchecks.1
    refine ⟨_, Edit.apply_swap_eq_ok_iff.2 ⟨args, hnode, rfl⟩, replaceAt_ne hnode ?_⟩
    intro heq
    exact hne (call.inj heq).1
  | compose steps => cases h
  | literal v => cases h

/-- Tweaks of a node have an effect. -/
theorem effective_of_mem_tweaksAt (hnode : p.node? location = some node)
    (h : edit ∈ tweaksAt reg location node) : edit.Effective p := by
  cases node with
  | call name args =>
    rw [tweaksAt] at h
    split at h
    · obtain ⟨index, old?, current, new, param, rfl, -, hnew, hfrom⟩ := exists_of_mem_tweaksOf h
      rw [Nat.zero_add] at hfrom ⊢
      -- there is room for the integer, and it is not there yet
      have hslot : Edit.IntegerSlot args index ∧ args[index]? ≠ some (.literal (.int new)) := by
        rcases hfrom with ⟨harg, -⟩ | ⟨rfl, -, -⟩
        · have hlt : index < args.length := (List.getElem?_eq_some_iff.1 harg).1
          refine ⟨⟨Nat.le_of_lt hlt, fun arg hmem => ⟨current, ?_⟩⟩, ?_⟩
          · rw [harg] at hmem
            exact (Option.some.inj hmem).symm
          · rw [harg, Ne, Option.some.injEq, literal.injEq, Value.int.injEq]
            exact (ne_of_mem_nearby hnew).symm
        · have hnone : args[args.length]? = none := List.getElem?_eq_none (Nat.le_refl _)
          rw [Edit.IntegerSlot, hnone]
          refine ⟨⟨Nat.le_refl _, fun arg hmem => ?_⟩, fun heq => ?_⟩
          · cases hmem
          · cases heq
      refine ⟨_, Edit.apply_tweak_eq_ok_iff.2 ⟨name, args, hnode, hslot.1, rfl⟩,
        replaceAt_ne hnode ?_⟩
      intro heq
      have hset := Edit.getElem?_withArgument hslot.1.1 new
      rw [(call.inj heq).2] at hset
      exact hslot.2 hset
    · cases h
  | compose steps => cases h
  | literal v => cases h

/-- Insertions at a node have an effect. -/
theorem effective_of_mem_insertionsAt (hnode : p.node? location = some node)
    (h : edit ∈ insertionsAt steps location node) : edit.Effective p := by
  obtain ⟨index, step, rfl, hindex, -⟩ := mem_insertionsAt_iff.1 h
  have hslot : (∀ v, node ≠ .literal v) ∧ index ≤ node.asSteps.length ∧
      .compose (node.asSteps.insertIdx index step) ≠ node := by
    cases node with
    | call name args =>
      rw [slots] at hindex
      split at hindex
      · exact ⟨nofun, Nat.le_of_lt_succ hindex, nofun⟩
      · exact absurd hindex (Nat.not_lt_zero index)
    | compose others =>
      have hle : index ≤ others.length := Nat.le_of_lt_succ hindex
      refine ⟨nofun, hle, fun heq => ?_⟩
      have hlength := congrArg List.length (compose.inj heq)
      rw [asSteps, List.length_insertIdx_of_le_length hle] at hlength
      omega
    | literal v => exact absurd hindex (Nat.not_lt_zero index)
  exact ⟨_, Edit.apply_insert_eq_ok_iff.2 ⟨node, hnode, hslot.1, hslot.2.1, rfl⟩,
    replaceAt_ne hnode hslot.2.2⟩

/-! ## Families -/

/-- The removals on offer are those that apply. -/
theorem mem_edits_remove_iff : edit ∈ edits reg steps p .remove ↔
    ∃ location q, edit = .remove location ∧ edit.apply p = .ok q := by
  unfold edits
  rw [List.mem_flatMap]
  constructor
  · rintro ⟨⟨parent, node⟩, hwalk, hedit⟩
    obtain ⟨index, steps, rfl, rfl, htwo, hindex⟩ := mem_removalsAt_iff.1 hedit
    exact ⟨_, _, rfl, Edit.apply_remove_eq_ok_iff.2
      ⟨parent, index, steps, rfl, node?_of_mem_walk hwalk, htwo, hindex, rfl⟩⟩
  · rintro ⟨location, q, rfl, happly⟩
    obtain ⟨parent, index, steps, rfl, hnode, htwo, hindex, -⟩ :=
      Edit.apply_remove_eq_ok_iff.1 happly
    exact ⟨(parent, .compose steps), mem_walk_iff.2 hnode,
      mem_removalsAt_iff.2 ⟨index, steps, rfl, rfl, htwo, hindex⟩⟩

/-- The reorderings on offer are those that have an effect. -/
theorem mem_edits_reorder_iff (hcount : p.StepsCounted) : edit ∈ edits reg steps p .reorder ↔
    ∃ location, edit = .reorder location ∧ edit.Effective p := by
  unfold edits
  rw [List.mem_flatMap]
  constructor
  · rintro ⟨⟨parent, node⟩, hwalk, hedit⟩
    obtain ⟨index, steps, first, second, rfl, rfl, hneighbors⟩ := mem_exchangesAt_iff.1 hedit
    exact ⟨_, rfl, (Edit.effective_reorder_iff hcount).2
      ⟨parent, index, steps, first, second, rfl, node?_of_mem_walk hwalk, hneighbors⟩⟩
  · rintro ⟨location, rfl, heffective⟩
    obtain ⟨parent, index, steps, first, second, rfl, hnode, hneighbors⟩ :=
      (Edit.effective_reorder_iff hcount).1 heffective
    exact ⟨(parent, .compose steps), mem_walk_iff.2 hnode,
      mem_exchangesAt_iff.2 ⟨index, steps, first, second, rfl, rfl, hneighbors⟩⟩

/-- All edits on offer have an effect. -/
theorem effective_of_mem_edits (hcount : p.StepsCounted) (h : edit ∈ edits reg steps p family) :
    edit.Effective p := by
  cases family with
  | swap =>
    obtain ⟨⟨location, node⟩, hwalk, hedit⟩ := List.mem_flatMap.1 h
    exact effective_of_mem_swapsOf (node?_of_mem_walk hwalk) hedit
  | tweak =>
    obtain ⟨⟨location, node⟩, hwalk, hedit⟩ := List.mem_flatMap.1 h
    exact effective_of_mem_tweaksAt (node?_of_mem_walk hwalk) hedit
  | insert =>
    obtain ⟨⟨location, node⟩, hwalk, hedit⟩ := List.mem_flatMap.1 h
    exact effective_of_mem_insertionsAt (node?_of_mem_walk hwalk) hedit
  | remove =>
    obtain ⟨location, q, rfl, happly⟩ := mem_edits_remove_iff.1 h
    obtain ⟨parent, index, steps, -, hnode, -, hindex, rfl⟩ := Edit.apply_remove_eq_ok_iff.1 happly
    exact ⟨_, happly, replaceAt_ne hnode (collapse_eraseIdx_ne hindex)⟩
  | reorder =>
    obtain ⟨location, -, heffective⟩ := (mem_edits_reorder_iff hcount).1 h
    exact heffective

/-- When all edits apply, each of them is the edit of a candidate. -/
theorem map_edit_candidates {offered : List Edit} (h : ∀ edit ∈ offered, edit.Effective p) :
    (candidates p offered).map Candidate.edit = offered := by
  induction offered with
  | nil => rfl
  | cons edit rest ih =>
    obtain ⟨⟨q, happly, -⟩, hrest⟩ := List.forall_mem_cons.1 h
    have hih := ih hrest
    unfold candidates at hih ⊢
    rw [List.filterMap_cons, happly, List.map_cons, hih]

/-! ## No edit twice -/

/-- Distinct edits of the nodes of a walk are distinct when each has the place of its node as its
site. -/
theorem nodup_flatMap_walk {f : Path × Program → List Edit} (hnodup : ∀ x, (f x).Nodup)
    (hsite : ∀ x, ∀ edit ∈ f x, edit.site = x.1) : (p.walk.flatMap f).Nodup := by
  rw [List.nodup_flatMap]
  refine ⟨fun x _ => hnodup x, (pairwise_walk p).imp ?_⟩
  intro x y hlt edit hx hy
  have hsame : x.1 = y.1 := (hsite x edit hx).symm.trans (hsite y edit hy)
  rw [hsame] at hlt
  exact List.lt_irrefl _ hlt

/-- No exchange is there twice. -/
theorem nodup_exchangesFrom (location : Path) (index : Nat) (steps : List Program) :
    (exchangesFrom location index steps).Nodup := by
  induction steps generalizing index with
  | nil => exact List.nodup_nil
  | cons first rest ih =>
    cases rest with
    | nil => exact List.nodup_nil
    | cons second rest =>
      rw [exchangesFrom]
      split
      · exact ih (index + 1)
      · rw [List.singleton_append, List.nodup_cons]
        refine ⟨fun hmem => ?_, ih (index + 1)⟩
        -- later exchanges are at later indices
        obtain ⟨i, -, -, heq, -⟩ := mem_exchangesFrom_iff.1 hmem
        have hchild := List.append_cancel_left (Edit.reorder.inj heq)
        rw [List.cons.injEq] at hchild
        omega

/-- No removal is on offer twice. -/
theorem nodup_edits_remove (reg : Registry) (steps : List Program) (p : Program) :
    (edits reg steps p .remove).Nodup := by
  refine nodup_flatMap_walk (fun x => ?_) fun x edit hedit => ?_
  · obtain ⟨location, node⟩ := x
    cases node with
    | call name args => exact List.nodup_nil
    | compose steps =>
      simp only [removalsAt]
      split
      · refine List.nodup_range.map fun i j hij => ?_
        have hchild := List.append_cancel_left (Edit.remove.inj hij)
        exact (List.cons.inj hchild).1
      · exact List.nodup_nil
    | literal v => exact List.nodup_nil
  · obtain ⟨index, steps, rfl, -⟩ := mem_removalsAt_iff.1 hedit
    exact List.dropLast_concat

/-- No reordering is on offer twice. -/
theorem nodup_edits_reorder (reg : Registry) (steps : List Program) (p : Program) :
    (edits reg steps p .reorder).Nodup := by
  refine nodup_flatMap_walk (fun x => ?_) fun x edit hedit => ?_
  · obtain ⟨location, node⟩ := x
    cases node with
    | call name args => exact List.nodup_nil
    | compose steps => exact nodup_exchangesFrom location 0 steps
    | literal v => exact List.nodup_nil
  · obtain ⟨index, steps, first, second, rfl, -⟩ := mem_exchangesAt_iff.1 hedit
    exact List.dropLast_concat

/-- **Proposals apply and have an effect, and no removal or reordering is left out.**  In every family,
each edit becomes a candidate, whose program is the result of the edit and another one than before.
The removals are those edits of the kind that apply, and the reorderings those that apply with an
effect; each of them is proposed once. -/
theorem edits_effective_complete (reg : Registry) (steps : List Program)
    (hcount : p.StepsCounted) :
    (∀ family,
      (candidates p (edits reg steps p family)).map Candidate.edit = edits reg steps p family ∧
      ∀ c ∈ candidates p (edits reg steps p family),
        c.edit.apply p = .ok c.program ∧ c.program ≠ p) ∧
    ((edits reg steps p .remove).Nodup ∧
      ∀ edit, edit ∈ edits reg steps p .remove ↔
        ∃ location q, edit = .remove location ∧ edit.apply p = .ok q) ∧
    (edits reg steps p .reorder).Nodup ∧
      ∀ edit, edit ∈ edits reg steps p .reorder ↔
        ∃ location, edit = .reorder location ∧ edit.Effective p := by
  refine ⟨fun family => ⟨?_, fun c hc => ?_⟩, ⟨nodup_edits_remove reg steps p, ?_⟩,
    nodup_edits_reorder reg steps p, ?_⟩
  · exact map_edit_candidates fun edit => effective_of_mem_edits hcount
  · obtain ⟨hedit, happly⟩ := mem_candidates_iff.1 hc
    obtain ⟨q, hq, hne⟩ := effective_of_mem_edits hcount hedit
    rw [happly, Except.ok.injEq] at hq
    rw [hq]
    exact ⟨happly.trans (congrArg _ hq), hne⟩
  · intro edit
    exact mem_edits_remove_iff
  · intro edit
    exact mem_edits_reorder_iff hcount

/-- The flip in brackets can be removed and can change places with the turn, so both are proposed. -/
theorem edits_effective_complete_bracketed :
    Program.bracketed.StepsCounted ∧
    (∀ c ∈ candidates .bracketed (edits .standard library .bracketed .insert),
      c.program ≠ .bracketed) ∧
    .remove [1, 0] ∈ edits .standard library .bracketed .remove ∧
    .reorder [1, 0] ∈ edits .standard library .bracketed .reorder := by
  have hcount : Program.bracketed.StepsCounted := stepsCounted_of_walk (by decide)
  obtain ⟨hfamilies, ⟨-, hremove⟩, -, hreorder⟩ :=
    edits_effective_complete .standard library hcount
  refine ⟨hcount, fun c hc => ((hfamilies .insert).2 c hc).2, ?_, ?_⟩
  · exact (hremove _).2 ⟨[1, 0], _, rfl, rfl⟩
  · exact (hreorder _).2 ⟨[1, 0], rfl, _, rfl, by decide⟩

end Proposal

end GridRepair
