/-
# Addresses of nodes

What stands at a path, and what a change there leaves as it is.  A change at a path looks up a node,
changes it and puts the result in its place (`modify_eq`); nodes that are neither above nor below it
stay (`node?_replaceAt_of_not_prefix`).  The leaves of a program are those before the node, those of
the node and those after it; a replacement exchanges the middle part and nothing else
(`leaves_replaceAt_eq`).  A walk lists all nodes with their paths (`mem_walk_iff`), in the order of the
paths (`pairwise_walk`).

`Proper` says that every composition has a step, at every depth, and that all literals have a given
property; putting a proper program in the place of a node keeps it (`Proper.replaceAt`).
-/
import Mathlib.Data.List.Basic
import GridRepair.Edit
import GridRepair.Proofs.Inversion

namespace GridRepair

namespace Program

/-! ## Replacing a node -/

/-- The program with another node at a path.  Without a node there, it stays as it is. -/
def replaceAt : Program → Path → Program → Program
  | _, [], node => node
  | .compose steps, i :: path, node =>
    match steps[i]? with
    | some step => .compose (steps.set i (replaceAt step path node))
    | none => .compose steps
  | p, _ :: _, _ => p

variable {p node node' : Program} {path : Path}

/-- Below a composition, the nodes are those of its steps. -/
theorem node?_compose_eq_some_iff {steps : List Program} {i : Nat} :
    (compose steps).node? (i :: path) = some node ↔
      ∃ step, steps[i]? = some step ∧ step.node? path = some node := by
  rw [node?]
  cases steps[i]? <;> simp

/-- Only compositions have nodes below them. -/
theorem exists_step_of_node? {i : Nat} (h : p.node? (i :: path) = some node) :
    ∃ steps step, p = .compose steps ∧ steps[i]? = some step ∧ step.node? path = some node := by
  cases p with
  | call name args => cases h
  | compose steps =>
    obtain ⟨step, hstep, hnode⟩ := node?_compose_eq_some_iff.1 h
    exact ⟨steps, step, rfl, hstep, hnode⟩
  | literal v => cases h

/-- Below a composition, a replacement happens in one of its steps. -/
theorem replaceAt_compose {steps : List Program} {step : Program} {i : Nat}
    (h : steps[i]? = some step) :
    (compose steps).replaceAt (i :: path) node =
      .compose (steps.set i (step.replaceAt path node)) := by
  rw [replaceAt, h]

/-- Below a node, paths go on from it. -/
theorem node?_append (p : Program) (path rest : Path) :
    p.node? (path ++ rest) = (p.node? path).bind fun node => node.node? rest := by
  induction path generalizing p with
  | nil => rfl
  | cons i path ih =>
    cases p with
    | call name args => rfl
    | literal v => rfl
    | compose steps =>
      rw [List.cons_append, node?, node?]
      cases steps[i]? with
      | none => rfl
      | some step => exact ih step

/-- The children of a composition are its steps. -/
theorem node?_child {steps : List Program} (h : p.node? path = some (.compose steps)) (i : Nat) :
    p.node? (path.child i) = steps[i]? := by
  rw [Path.child, node?_append, h, Option.bind_some, node?]
  cases steps[i]? <;> rfl

/-- What was put at a path stands there. -/
theorem node?_replaceAt (h : p.node? path = some node) :
    (p.replaceAt path node').node? path = some node' := by
  induction path generalizing p with
  | nil => rfl
  | cons i path ih =>
    obtain ⟨steps, step, rfl, hstep, hnode⟩ := exists_step_of_node? h
    rw [replaceAt_compose hstep]
    refine node?_compose_eq_some_iff.2 ⟨step.replaceAt path node', ?_, ih hnode⟩
    exact List.getElem?_set_self (List.getElem?_eq_some_iff.1 hstep).1

/-- Nodes that are neither above nor below the path stay as they are. -/
theorem node?_replaceAt_of_not_prefix {location : Path} (hbelow : ¬ path <+: location)
    (habove : ¬ location <+: path) : (p.replaceAt path node).node? location = p.node? location := by
  induction path generalizing p location with
  | nil => exact absurd List.nil_prefix hbelow
  | cons i path ih =>
    cases location with
    | nil => exact absurd List.nil_prefix habove
    | cons j location =>
      rw [List.cons_prefix_cons, not_and] at hbelow habove
      cases p with
      | call name args => rfl
      | literal v => rfl
      | compose steps =>
        cases hstep : steps[i]? with
        | none => rw [replaceAt, hstep]
        | some step =>
          rw [replaceAt_compose hstep, node?, node?]
          by_cases hij : i = j
          · subst hij
            rw [List.getElem?_set_self (List.getElem?_eq_some_iff.1 hstep).1, hstep]
            exact ih (hbelow rfl) (habove rfl)
          · rw [List.getElem?_set_ne hij]

/-- The node that is there can be put at a path. -/
theorem replaceAt_self (h : p.node? path = some node) : p.replaceAt path node = p := by
  induction path generalizing p with
  | nil => exact (Option.some.inj h).symm
  | cons i path ih =>
    obtain ⟨steps, step, rfl, hstep, hnode⟩ := exists_step_of_node? h
    obtain ⟨hi, rfl⟩ := List.getElem?_eq_some_iff.1 hstep
    rw [replaceAt_compose hstep, ih hnode, List.set_getElem_self hi]

/-- Of two replacements at one path, the second one counts. -/
theorem replaceAt_replaceAt {node'' : Program} (h : p.node? path = some node) :
    (p.replaceAt path node').replaceAt path node'' = p.replaceAt path node'' := by
  induction path generalizing p with
  | nil => rfl
  | cons i path ih =>
    obtain ⟨steps, step, rfl, hstep, hnode⟩ := exists_step_of_node? h
    have hi : i < steps.length := (List.getElem?_eq_some_iff.1 hstep).1
    rw [replaceAt_compose hstep, replaceAt_compose (List.getElem?_set_self hi),
      replaceAt_compose hstep, ih hnode, List.set_set]

/-- A change at a path changes the node that is there and puts the result in its place. -/
theorem modify_eq (change : Program → Except Fault Program) (absent : Fault) (p : Program)
    (path : Path) :
    modify change absent p path =
      match p.node? path with
      | some node => (change node).map fun node' => p.replaceAt path node'
      | none => .error absent := by
  induction path generalizing p with
  | nil =>
    show change p = (change p).map fun node' => node'
    cases change p <;> rfl
  | cons i path ih =>
    cases p with
    | call name args => rfl
    | literal v => rfl
    | compose steps =>
      rw [modify, node?]
      cases hstep : steps[i]? with
      | none => rfl
      | some step =>
        simp only [ih step]
        cases step.node? path with
        | none => rfl
        | some node =>
          simp only [replaceAt_compose hstep]
          cases change node <;> rfl

/-- A change at a path succeeds where there is a node that can be changed. -/
theorem modify_eq_ok_iff {change : Program → Except Fault Program} {absent : Fault}
    {q : Program} :
    modify change absent p path = .ok q ↔
      ∃ node node', p.node? path = some node ∧ change node = .ok node' ∧
        p.replaceAt path node' = q := by
  rw [modify_eq]
  cases p.node? path with
  | none => simp
  | some node => simp [map_eq_ok]

/-! ## Leaves around a node -/

/-- The leaves of steps are those before a step, those of the step and those after it. -/
theorem leavesAll_set {steps : List Program} {step : Program} {i : Nat}
    (h : steps[i]? = some step) (step' : Program) :
    leavesAll (steps.set i step') =
      leavesAll (steps.take i) ++ step'.leaves ++ leavesAll (steps.drop (i + 1)) := by
  have hi : i < steps.length := (List.getElem?_eq_some_iff.1 h).1
  simp only [leavesAll_eq_flatMap]
  rw [List.set_eq_take_append_cons_drop, if_pos hi, List.flatMap_append, List.flatMap_cons,
    List.append_assoc]

/-- The leaves before the node at a path. -/
def leavesBefore : Program → Path → List Program
  | .compose steps, i :: path =>
    match steps[i]? with
    | some step => leavesAll (steps.take i) ++ leavesBefore step path
    | none => leavesAll (steps.take i)
  | _, _ => []

/-- The leaves after the node at a path. -/
def leavesAfter : Program → Path → List Program
  | .compose steps, i :: path =>
    match steps[i]? with
    | some step => leavesAfter step path ++ leavesAll (steps.drop (i + 1))
    | none => leavesAll (steps.drop (i + 1))
  | _, _ => []

/-- A replacement exchanges the leaves of the node, between those before it and those after it. -/
theorem leaves_replaceAt_eq (h : p.node? path = some node) :
    (p.replaceAt path node').leaves =
      p.leavesBefore path ++ node'.leaves ++ p.leavesAfter path := by
  induction path generalizing p with
  | nil => simp [replaceAt, leavesBefore, leavesAfter]
  | cons i path ih =>
    obtain ⟨steps, step, rfl, hstep, hnode⟩ := exists_step_of_node? h
    rw [replaceAt_compose hstep, leaves, leavesAll_set hstep, ih hnode, leavesBefore, leavesAfter,
      hstep]
    simp only [List.append_assoc]

/-- The leaves of a program are those before a node, those of the node and those after it. -/
theorem leaves_eq_around (h : p.node? path = some node) :
    p.leaves = p.leavesBefore path ++ node.leaves ++ p.leavesAfter path := by
  rw [← leaves_replaceAt_eq h, replaceAt_self h]

/-- Before a step of a composition are the leaves before the composition and those of earlier steps. -/
theorem leavesBefore_child {steps : List Program} (h : p.node? path = some (.compose steps))
    (i : Nat) :
    p.leavesBefore (path.child i) = p.leavesBefore path ++ leavesAll (steps.take i) := by
  rw [Path.child]
  induction path generalizing p with
  | nil =>
    obtain rfl := Option.some.inj h
    rw [List.nil_append, leavesBefore]
    cases steps[i]? <;> simp [leavesBefore]
  | cons j path ih =>
    obtain ⟨outer, step, rfl, hstep, hnode⟩ := exists_step_of_node? h
    rw [List.cons_append, leavesBefore, leavesBefore, hstep]
    simp only [ih hnode, List.append_assoc]

/-- After a step of a composition are the leaves of later steps and those after the composition. -/
theorem leavesAfter_child {steps : List Program} (h : p.node? path = some (.compose steps))
    (i : Nat) :
    p.leavesAfter (path.child i) = leavesAll (steps.drop (i + 1)) ++ p.leavesAfter path := by
  rw [Path.child]
  induction path generalizing p with
  | nil =>
    obtain rfl := Option.some.inj h
    rw [List.nil_append, leavesAfter]
    cases steps[i]? <;> simp [leavesAfter]
  | cons j path ih =>
    obtain ⟨outer, step, rfl, hstep, hnode⟩ := exists_step_of_node? h
    rw [List.cons_append, leavesAfter, leavesAfter, hstep]
    simp only [ih hnode, List.append_assoc]

/-- A replacement by a program with the same leaves keeps the leaves. -/
theorem leaves_replaceAt (h : p.node? path = some node) (hsame : node'.leaves = node.leaves) :
    (p.replaceAt path node').leaves = p.leaves := by
  rw [leaves_replaceAt_eq h, hsame, ← leaves_eq_around h]

/-! ## Steps of a node -/

/-- The steps of a composition, or another program as the only step. -/
def asSteps : Program → List Program
  | .compose steps => steps
  | .call name args => [.call name args]
  | .literal v => [.literal v]

/-- The leaves of a program are those of its steps. -/
theorem leavesAll_asSteps (p : Program) : leavesAll p.asSteps = p.leaves := by
  cases p with
  | call name args => rfl
  | compose steps => rfl
  | literal v => rfl

/-! ## Proper programs -/

mutual

/-- Every composition has a step, at every depth and among arguments too, and every literal has the
property. -/
def Proper (P : Value → Prop) : Program → Prop
  | .call _ args => ProperAll P args
  | .compose steps => steps ≠ [] ∧ ProperAll P steps
  | .literal v => P v

/-- Every program of the list is proper. -/
def ProperAll (P : Value → Prop) : List Program → Prop
  | [] => True
  | p :: ps => Proper P p ∧ ProperAll P ps

end

/-- Every composition has a step, at every depth. -/
def Solid : Program → Prop := Proper fun _ => True

variable {P : Value → Prop}

/-- A list is proper when its programs are. -/
theorem properAll_iff {ps : List Program} : ProperAll P ps ↔ ∀ p ∈ ps, p.Proper P := by
  induction ps with
  | nil => simp [ProperAll]
  | cons p ps ih => rw [ProperAll, ih, List.forall_mem_cons]

/-- The nodes of a proper program are proper. -/
theorem Proper.of_node? (hp : p.Proper P) (h : p.node? path = some node) : node.Proper P := by
  induction path generalizing p with
  | nil =>
    rw [node?, Option.some.injEq] at h
    exact h ▸ hp
  | cons i path ih =>
    obtain ⟨steps, step, rfl, hstep, hnode⟩ := exists_step_of_node? h
    rw [Proper, properAll_iff] at hp
    exact ih (hp.2 step (List.mem_of_getElem? hstep)) hnode

/-- A proper program with a proper program in place of a node is proper. -/
theorem Proper.replaceAt (hp : p.Proper P) (h : p.node? path = some node)
    (hnode : node'.Proper P) : (p.replaceAt path node').Proper P := by
  induction path generalizing p with
  | nil => exact hnode
  | cons i path ih =>
    obtain ⟨steps, step, rfl, hstep, hbelow⟩ := exists_step_of_node? h
    rw [Proper, properAll_iff] at hp
    rw [replaceAt_compose hstep, Proper, properAll_iff]
    refine ⟨mt (List.set_eq_nil_iff _ _).1 hp.1, fun q hq => ?_⟩
    rcases List.mem_or_eq_of_mem_set hq with hq | rfl
    · exact hp.2 q hq
    · exact ih (hp.2 step (List.mem_of_getElem? hstep)) hbelow

/-- The steps of a proper program are proper. -/
theorem Proper.of_mem_asSteps {step : Program} (hp : p.Proper P) (h : step ∈ p.asSteps) :
    step.Proper P := by
  cases p with
  | call name args => exact List.mem_singleton.1 h ▸ hp
  | compose steps => exact properAll_iff.1 hp.2 step h
  | literal v => exact List.mem_singleton.1 h ▸ hp

/-! ## Walks -/

mutual

/-- A node of a walk that starts at a path stands at the rest of its own path. -/
theorem exists_node?_of_mem_walkFrom : ∀ (p : Program) (path location : Path),
    (location, node) ∈ p.walkFrom path → ∃ rest, location = path ++ rest ∧ p.node? rest = some node
  | .call name args, path, location, h => by
    obtain ⟨hlocation, hnode⟩ := Prod.mk.inj (List.mem_singleton.1 h)
    exact ⟨[], by rw [hlocation, List.append_nil], by rw [node?, hnode]⟩
  | .literal v, path, location, h => by
    obtain ⟨hlocation, hnode⟩ := Prod.mk.inj (List.mem_singleton.1 h)
    exact ⟨[], by rw [hlocation, List.append_nil], by rw [node?, hnode]⟩
  | .compose steps, path, location, h => by
    rw [walkFrom, List.mem_cons] at h
    rcases h with h | h
    · obtain ⟨hlocation, hnode⟩ := Prod.mk.inj h
      exact ⟨[], by rw [hlocation, List.append_nil], by rw [node?, hnode]⟩
    · obtain ⟨i, rest, step, rfl, hstep, hnode⟩ := exists_node?_of_mem_walkSteps steps path 0 location h
      rw [Nat.zero_add] at *
      exact ⟨i :: rest, rfl, node?_compose_eq_some_iff.2 ⟨step, hstep, hnode⟩⟩

/-- A node of a walk over steps stands below one of them. -/
theorem exists_node?_of_mem_walkSteps : ∀ (steps : List Program) (path : Path) (index : Nat)
    (location : Path), (location, node) ∈ walkSteps path index steps →
    ∃ i rest step, location = path ++ (index + i) :: rest ∧ steps[i]? = some step ∧
      step.node? rest = some node
  | [], _, _, _, h => by cases h
  | p :: ps, path, index, location, h => by
    rw [walkSteps, List.mem_append] at h
    rcases h with h | h
    · obtain ⟨rest, rfl, hnode⟩ := exists_node?_of_mem_walkFrom p (path.child index) location h
      exact ⟨0, rest, p, by simp [Path.child], rfl, hnode⟩
    · obtain ⟨i, rest, step, rfl, hstep, hnode⟩ :=
        exists_node?_of_mem_walkSteps ps path (index + 1) location h
      refine ⟨i + 1, rest, step, ?_, hstep, hnode⟩
      rw [show index + 1 + i = index + (i + 1) from by omega]

end

/-- The nodes of a walk stand at their paths. -/
theorem node?_of_mem_walk {location : Path} (h : (location, node) ∈ p.walk) :
    p.node? location = some node := by
  obtain ⟨rest, rfl, hnode⟩ := exists_node?_of_mem_walkFrom p [] location h
  exact hnode

/-- A walk over steps holds the walks over each of them. -/
theorem mem_walkSteps {steps : List Program} {step : Program} {i index : Nat} {x : Path × Program}
    (hstep : steps[i]? = some step) (h : x ∈ step.walkFrom (path.child (index + i))) :
    x ∈ walkSteps path index steps := by
  induction steps generalizing i index with
  | nil => cases hstep
  | cons p ps ih =>
    rw [walkSteps, List.mem_append]
    cases i with
    | zero =>
      obtain rfl := Option.some.inj hstep
      exact .inl h
    | succ i =>
      refine .inr (ih hstep ?_)
      rwa [show index + 1 + i = index + (i + 1) from by omega]

/-- A walk that starts at a path comes to every node below it. -/
theorem mem_walkFrom {rest : Path} (h : p.node? rest = some node) (path : Path) :
    (path ++ rest, node) ∈ p.walkFrom path := by
  induction rest generalizing p path with
  | nil =>
    obtain rfl := Option.some.inj h
    rw [List.append_nil]
    cases p with
    | call name args => exact List.mem_singleton_self _
    | compose steps =>
      rw [walkFrom]
      exact List.mem_cons_self
    | literal v => exact List.mem_singleton_self _
  | cons i rest ih =>
    obtain ⟨steps, step, rfl, hstep, hnode⟩ := exists_step_of_node? h
    rw [walkFrom]
    refine List.mem_cons_of_mem _ (mem_walkSteps hstep ?_)
    have hbelow := ih hnode (path.child i)
    rw [Path.child, List.append_assoc] at hbelow
    rwa [Nat.zero_add]

/-- A walk holds the nodes of the program, each with its path. -/
theorem mem_walk_iff {location : Path} :
    (location, node) ∈ p.walk ↔ p.node? location = some node :=
  ⟨node?_of_mem_walk, fun h => mem_walkFrom h []⟩

mutual

/-- A walk comes to the nodes in the order of their paths. -/
theorem pairwise_walkFrom : ∀ (p : Program) (path : Path),
    (p.walkFrom path).Pairwise fun x y => x.1 < y.1
  | .call _ _, _ => List.pairwise_singleton _ _
  | .literal _, _ => List.pairwise_singleton _ _
  | .compose steps, path => by
    rw [walkFrom, List.pairwise_cons]
    refine ⟨?_, pairwise_walkSteps steps path 0⟩
    rintro ⟨location, node⟩ h
    obtain ⟨i, rest, -, rfl, -⟩ := exists_node?_of_mem_walkSteps steps path 0 location h
    -- the node itself is before all nodes below it
    have hlt : path ++ [] < path ++ (0 + i) :: rest := List.append_left_lt (List.nil_lt_cons _ _)
    rwa [List.append_nil] at hlt

/-- A walk over steps comes to the nodes in the order of their paths. -/
theorem pairwise_walkSteps : ∀ (steps : List Program) (path : Path) (index : Nat),
    (walkSteps path index steps).Pairwise fun x y => x.1 < y.1
  | [], _, _ => List.Pairwise.nil
  | p :: ps, path, index => by
    rw [walkSteps, List.pairwise_append]
    refine ⟨pairwise_walkFrom p _, pairwise_walkSteps ps path (index + 1), ?_⟩
    rintro ⟨location, node⟩ h ⟨location', node'⟩ h'
    obtain ⟨rest, rfl, -⟩ := exists_node?_of_mem_walkFrom p _ location h
    obtain ⟨i, rest', -, rfl, -⟩ := exists_node?_of_mem_walkSteps ps path _ location' h'
    -- a node below a step is before all nodes below later steps
    rw [Path.child, List.append_assoc]
    exact List.append_left_lt (List.cons_lt_cons_iff.2 (.inl (by omega)))

end

/-- A walk lists the nodes in the order of their paths, each of them once. -/
theorem pairwise_walk (p : Program) : p.walk.Pairwise fun x y => x.1 < y.1 :=
  pairwise_walkFrom p []

end Program

end GridRepair
