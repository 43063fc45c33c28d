/-
# Programs

A program is a primitive call, a composition of steps that run from left to right, or a
literal.  Arguments of a call are programs too, although only literals can be evaluated there.

Compositions nest; `Program.leaves` forgets the nesting.  A node is addressed by its `Path`:
`Program.node?` reads one and `Program.walk` lists all of them, parents before children and
steps from left to right.
-/
import GridRepair.Value

namespace GridRepair

/-- A program over grids. -/
inductive Program where
  /-- a primitive applied to the current grid -/
  | call (name : String) (args : List Program)
  /-- steps applied from left to right -/
  | compose (steps : List Program)
  /-- a constant -/
  | literal (value : Value)

namespace Program

/-! ## Equality -/

mutual

/-- The programs are the same. -/
def same : Program → Program → Bool
  | .call n as, .call m bs => n == m && sameAll as bs
  | .compose as, .compose bs => sameAll as bs
  | .literal v, .literal w => decide (v = w)
  | _, _ => false

/-- The lists are the same, program by program. -/
def sameAll : List Program → List Program → Bool
  | [], [] => true
  | a :: as, b :: bs => same a b && sameAll as bs
  | _, _ => false

end

mutual

theorem eq_of_same : ∀ p q : Program, same p q = true → p = q
  | .call n as, .call m bs, h => by
    simp only [same, Bool.and_eq_true, beq_iff_eq] at h
    rw [h.1, eq_of_sameAll as bs h.2]
  | .compose as, .compose bs, h => by
    simp only [same] at h
    rw [eq_of_sameAll as bs h]
  | .literal v, .literal w, h => by
    simp only [same, decide_eq_true_eq] at h
    rw [h]
  | .call .., .compose _, h => by simp [same] at h
  | .call .., .literal _, h => by simp [same] at h
  | .compose _, .call .., h => by simp [same] at h
  | .compose _, .literal _, h => by simp [same] at h
  | .literal _, .call .., h => by simp [same] at h
  | .literal _, .compose _, h => by simp [same] at h

theorem eq_of_sameAll : ∀ as bs : List Program, sameAll as bs = true → as = bs
  | [], [], _ => rfl
  | a :: as, b :: bs, h => by
    simp only [sameAll, Bool.and_eq_true] at h
    rw [eq_of_same a b h.1, eq_of_sameAll as bs h.2]
  | [], _ :: _, h => by simp [sameAll] at h
  | _ :: _, [], h => by simp [sameAll] at h

end

mutual

theorem same_self : ∀ p : Program, same p p = true
  | .call n as => by simp [same, sameAll_self as]
  | .compose as => by simp [same, sameAll_self as]
  | .literal v => by simp [same]

theorem sameAll_self : ∀ as : List Program, sameAll as as = true
  | [] => by simp [sameAll]
  | a :: as => by simp [sameAll, same_self a, sameAll_self as]

end

/-- The comparison decides equality. -/
theorem same_iff {p q : Program} : same p q = true ↔ p = q :=
  ⟨eq_of_same p q, fun h => h ▸ same_self p⟩

instance : DecidableEq Program := fun _ _ => decidable_of_iff _ same_iff

/-! ## Construction -/

/-- A call whose arguments are literals. -/
def apply (name : String) (args : List Value) : Program := .call name (args.map .literal)

/-- The call that changes nothing. -/
def identity : Program := .call "identity" []

/-- The composition of steps, of which there must be one. -/
def compose? (steps : List Program) : Except Fault Program :=
  if steps.isEmpty then .error .emptyComposition else .ok (.compose steps)

/-- The name of a call; other programs have none. -/
def name? : Program → Option String
  | .call name _ => some name
  | _ => none

/-! ## Text -/

mutual

/-- A program in words: arguments in parentheses, steps joined by `>>`. -/
def render : Program → String
  | .call name [] => name
  | .call name (a :: as) => name ++ "(" ++ ", ".intercalate (render a :: renderAll as) ++ ")"
  | .compose steps => "(" ++ " >> ".intercalate (renderAll steps) ++ ")"
  | .literal v => v.render

/-- Programs in words, one by one. -/
def renderAll : List Program → List String
  | [] => []
  | p :: ps => render p :: renderAll ps

end

/-- The texts of a list are the texts of its programs. -/
theorem renderAll_eq_map (ps : List Program) : renderAll ps = ps.map render := by
  induction ps with
  | nil => rfl
  | cons p ps ih => rw [renderAll, ih, List.map_cons]

/-! ## Measures -/

mutual

/-- The number of primitive calls among the steps. -/
def size : Program → Nat
  | .call .. => 1
  | .compose steps => sizeAll steps
  | .literal _ => 0

/-- The number of primitive calls in a list of steps. -/
def sizeAll : List Program → Nat
  | [] => 0
  | p :: ps => size p + sizeAll ps

end

mutual

/-- The nesting depth of compositions, counting a lone call or literal as one. -/
def depth : Program → Nat
  | .compose steps => 1 + depthAll steps
  | _ => 1

/-- The largest depth in a list of steps. -/
def depthAll : List Program → Nat
  | [] => 0
  | p :: ps => max (depth p) (depthAll ps)

end

mutual

/-- The calls and literals that a program runs, from left to right. -/
def leaves : Program → List Program
  | .compose steps => leavesAll steps
  | p => [p]

/-- The leaves of a list of steps. -/
def leavesAll : List Program → List Program
  | [] => []
  | p :: ps => leaves p ++ leavesAll ps

end

/-- The leaves of a list are the leaves of its programs. -/
theorem leavesAll_eq_flatMap (ps : List Program) : leavesAll ps = ps.flatMap leaves := by
  induction ps with
  | nil => rfl
  | cons p ps ih => rw [leavesAll, ih, List.flatMap_cons]

/-! ## Addresses -/

/-- The node at a path. -/
def node? : Program → Path → Option Program
  | p, [] => some p
  | .compose steps, i :: path =>
    match steps[i]? with
    | some step => node? step path
    | none => none
  | _, _ :: _ => none

mutual

/-- The nodes of a program that stands at a path, in pre-order. -/
def walkFrom (path : Path) : Program → List (Path × Program)
  | .compose steps => (path, .compose steps) :: walkSteps path 0 steps
  | p => [(path, p)]

/-- The nodes of steps that stand below a path, counted from an index. -/
def walkSteps (path : Path) (index : Nat) : List Program → List (Path × Program)
  | [] => []
  | p :: ps => walkFrom (path.child index) p ++ walkSteps path (index + 1) ps

end

/-- All nodes with their paths: a node before its steps, steps from left to right. -/
def walk (p : Program) : List (Path × Program) := walkFrom [] p

end Program

end GridRepair
