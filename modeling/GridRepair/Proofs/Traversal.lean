/-
# Walking a program with a stack

The walk of a program does not need recursion.  The nodes that are known and not yet visited wait on
a stack; a round of the loop takes the top one off, pushes its steps, the last of them first, and
lists it (`Traversal.next?`).

What is ahead of a traversal are the walks of the nodes on the stack, one after another.  A round
moves the first of these nodes to the list and changes nothing else (`Traversal.ahead_of_next?`).  So
after `n` rounds the first `n` nodes of the walk are listed (`Traversal.listed_run`), and the loop
ends after as many rounds as the program has nodes.
-/
import GridRepair.Proofs.Addresses

namespace GridRepair

namespace Program

/-! ## Walks over steps -/

/-- A walk over steps is the walks over each of them. -/
theorem walkSteps_eq_flatMap (steps : List Program) (path : Path) (index : Nat) :
    walkSteps path index steps =
      (steps.zipIdx index).flatMap fun x => x.1.walkFrom (path.child x.2) := by
  induction steps generalizing index with
  | nil => rfl
  | cons step steps ih => rw [walkSteps, ih, List.zipIdx_cons, List.flatMap_cons]

/-- A walk holds the node that it starts from. -/
theorem walkFrom_ne_nil (p : Program) (path : Path) : p.walkFrom path ≠ [] := by
  cases p <;> exact List.cons_ne_nil _ _

/-- A walk comes to a node before it comes to the nodes below it. -/
theorem pairwise_walk_not_prefix (p : Program) : p.walk.Pairwise fun x y => ¬ y.1 <+: x.1 := by
  refine (pairwise_walk p).imp ?_
  rintro ⟨path, node⟩ ⟨path', node'⟩ hlt ⟨rest, rfl⟩
  exact absurd hlt (List.not_lt.2 List.le_append_left)

end Program

/-! ## The loop -/

/-- A walk that is under way: the nodes that wait, the next one first, and the nodes visited, the
last one last. -/
structure Traversal where
  stack : List (Path × Program)
  listed : List (Path × Program)

namespace Traversal

/-- A traversal that has not visited anything. -/
def start (p : Program) : Traversal := ⟨[([], p)], []⟩

/-- The steps of a node at a path, pushed on a stack from the last one to the first one. -/
def push (path : Path) : Program → List (Path × Program) → List (Path × Program)
  | .compose steps, stack =>
    steps.zipIdx.reverse.foldl (fun stack (step, i) => (path.child i, step) :: stack) stack
  | .call .., stack => stack
  | .literal _, stack => stack

/-- One round of the loop.  There is none when nothing waits. -/
def next? (t : Traversal) : Option Traversal :=
  match t.stack with
  | [] => none
  | (path, node) :: stack => some ⟨push path node stack, t.listed ++ [(path, node)]⟩

/-- The traversal after some rounds, or at its end. -/
def run : Nat → Traversal → Traversal
  | 0, t => t
  | n + 1, t =>
    match t.next? with
    | some u => run n u
    | none => t

/-! ## One round -/

/-- What is still to be listed: the walks of the nodes that wait. -/
def ahead (t : Traversal) : List (Path × Program) := t.stack.flatMap fun x => x.2.walkFrom x.1

variable {t u : Traversal} {p : Program}

/-- The steps of a composition lie on top of the stack, in their order. -/
theorem push_compose (path : Path) (steps : List Program) (stack : List (Path × Program)) :
    push path (.compose steps) stack =
      (steps.zipIdx.map fun x => (path.child x.2, x.1)) ++ stack := by
  rw [push, List.foldl_reverse, List.foldr_cons_eq_append]

-- the steps of a step wait above the steps that follow it
example : push [0] (.compose [.call "transpose" [], .identity]) [([1], .call "reflect_h" [])] =
    [([0, 0], .call "transpose" []), ([0, 1], .identity), ([1], .call "reflect_h" [])] := rfl

/-- The walk over a node and then over a stack begins with the node and goes on over the stack on
which its steps are pushed. -/
theorem walkFrom_append (path : Path) (node : Program) (stack : List (Path × Program)) :
    (node.walkFrom path ++ stack.flatMap fun x => x.2.walkFrom x.1) =
      (path, node) :: (push path node stack).flatMap fun x => x.2.walkFrom x.1 := by
  cases node with
  | call name args => rfl
  | literal v => rfl
  | compose steps =>
    rw [Program.walkFrom, Program.walkSteps_eq_flatMap, push_compose, List.flatMap_append,
      List.flatMap_map, List.cons_append]

/-- A round visits the first node that is ahead. -/
theorem ahead_of_next? (h : t.next? = some u) :
    ∃ x, t.ahead = x :: u.ahead ∧ u.listed = t.listed ++ [x] := by
  obtain ⟨stack, listed⟩ := t
  cases stack with
  | nil => cases h
  | cons x stack =>
    cases h
    exact ⟨x, walkFrom_append x.1 x.2 stack, rfl⟩

/-- There is no round left when the stack is empty. -/
theorem next?_eq_none_iff : t.next? = none ↔ t.stack = [] := by
  obtain ⟨stack, listed⟩ := t
  cases stack with
  | nil => exact iff_of_true rfl rfl
  | cons x stack => exact iff_of_false nofun (List.cons_ne_nil x stack)

/-- Nothing is ahead when nothing waits. -/
theorem ahead_eq_nil_iff : t.ahead = [] ↔ t.stack = [] := by
  rw [ahead, List.flatMap_eq_nil_iff, List.eq_nil_iff_forall_not_mem]
  exact forall₂_congr fun x _ => iff_false_intro (Program.walkFrom_ne_nil x.2 x.1)

/-! ## All rounds -/

/-- After some rounds, as many of the nodes ahead are listed. -/
theorem listed_run (n : Nat) (t : Traversal) : (t.run n).listed = t.listed ++ t.ahead.take n := by
  induction n generalizing t with
  | zero => rw [run, List.take_zero, List.append_nil]
  | succ n ih =>
    rw [run]
    cases hnext : t.next? with
    | none => rw [ahead_eq_nil_iff.2 (next?_eq_none_iff.1 hnext), List.take_nil, List.append_nil]
    | some u =>
      obtain ⟨x, hahead, hlisted⟩ := ahead_of_next? hnext
      rw [ih u, hlisted, hahead, List.take_succ_cons, List.append_assoc, List.singleton_append]

/-- After some rounds, the other nodes are ahead. -/
theorem ahead_run (n : Nat) (t : Traversal) : (t.run n).ahead = t.ahead.drop n := by
  induction n generalizing t with
  | zero => rw [run, List.drop_zero]
  | succ n ih =>
    rw [run]
    cases hnext : t.next? with
    | none => rw [ahead_eq_nil_iff.2 (next?_eq_none_iff.1 hnext), List.drop_nil]
    | some u =>
      obtain ⟨x, hahead, -⟩ := ahead_of_next? hnext
      rw [ih u, hahead, List.drop_succ_cons]

/-- At first, the whole walk is ahead. -/
theorem ahead_start (p : Program) : (start p).ahead = p.walk := by
  rw [ahead, start, List.flatMap_singleton, Program.walk]

/-- The stack of a program runs empty after as many rounds as its walk has nodes, and not before. -/
theorem stack_run_start_eq_nil_iff {n : Nat} :
    ((start p).run n).stack = [] ↔ p.walk.length ≤ n := by
  rw [← ahead_eq_nil_iff, ahead_run, ahead_start, List.drop_eq_nil_iff]

end Traversal

namespace Program

/-- **The loop over a stack walks a program in pre-order.**  After `n` rounds it has listed the first
`n` nodes of the walk, and its stack is empty when these are all, so it ends and its list is the walk.
The walk holds the nodes of the program with their paths and nothing else, no path twice; the paths
ascend in lexicographic order, and a node comes before those below it. -/
theorem traversal_preorder (p : Program) :
    (∀ n, ((Traversal.start p).run n).listed = p.walk.take n ∧
      (((Traversal.start p).run n).stack = [] ↔ p.walk.length ≤ n)) ∧
    (p.walk.map Prod.fst).Nodup ∧
    (∀ path node, (path, node) ∈ p.walk ↔ p.node? path = some node) ∧
    (p.walk.map Prod.fst).Pairwise (List.Lex (· < ·)) ∧
    p.walk.Pairwise fun x y => ¬ y.1 <+: x.1 := by
  have hpaths : (p.walk.map Prod.fst).Pairwise (List.Lex (· < ·)) :=
    List.pairwise_map.2 (pairwise_walk p)
  have hnodup : (p.walk.map Prod.fst).Nodup := by
    refine List.Pairwise.imp ?_ hpaths
    rintro path path' hlt rfl
    exact List.lt_irrefl path hlt
  refine ⟨fun n => ⟨?_, Traversal.stack_run_start_eq_nil_iff⟩, hnodup,
    fun path node => mem_walk_iff, hpaths, pairwise_walk_not_prefix p⟩
  rw [Traversal.listed_run, Traversal.ahead_start, Traversal.start, List.nil_append]

end Program

end GridRepair
