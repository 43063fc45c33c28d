/-
# Proposed edits

The edits worth a try on a program, family by family, each with the program it leads to.
Proposals follow the order of `Program.walk`, so a family lists them the same way every time.
-/
import GridRepair.Edit
import GridRepair.Hint
import GridRepair.Registry

namespace GridRepair

/-- An edit with the program it leads to. -/
structure Candidate where
  edit : Edit
  program : Program
deriving DecidableEq

namespace Proposal

/-- Primitives that may stand for each other. -/
def groups : List (List String) :=
  [ ["identity", "rotate90", "reflect_h", "reflect_v", "transpose"],
    ["scale", "tile_h", "tile_v"],
    ["crop_to_content", "crop_largest_object"],
    ["draw_line_h", "draw_line_v"],
    ["draw_rect", "draw_rect_outline"] ]

/-- The steps that are always worth an insertion. -/
def library : List Program :=
  [ .apply "rotate90" [.int 1],
    .apply "rotate90" [.int 2],
    .apply "rotate90" [.int 3],
    .apply "reflect_h" [],
    .apply "reflect_v" [],
    .apply "transpose" [],
    .apply "crop_to_content" [],
    .apply "scale" [.int 2],
    .apply "scale" [.int 3],
    .apply "tile_h" [.int 2],
    .apply "tile_v" [.int 2] ]

/-- The edits that apply, with their results. -/
def candidates (p : Program) (edits : List Edit) : List Candidate :=
  edits.filterMap fun edit =>
    match edit.apply p with
    | .ok q => some ⟨edit, q⟩
    | .error _ => none

/-! ## Families -/

/-- The argument is a literal of the right kind. -/
def fitsParam (q : Param) : Program → Bool
  | .literal v => q.kind.accepts v
  | _ => false

/-- The primitive can be called with the arguments. -/
def fits (prim : Primitive) (args : List Program) : Bool :=
  prim.takes args.length && (prim.params.zip args).all fun (q, a) => fitsParam q a

/-- Swaps of one node for primitives of its group. -/
def swapsOf (reg : Registry) (location : Path) : Program → List Edit
  | .call name args =>
    let group := (groups.find? fun names => names.contains name).getD []
    (group.filter fun other =>
      other ≠ name && (reg.get? other).any fun prim => fits prim args).map fun other =>
        .swap location name other
  | _ => []

/-- Tweaks of the arguments of a call, from the parameter at an index on.  Given integers are
moved; the first omitted argument may be written out with another value than its default. -/
def tweaksOf (location : Path) (args : List Program) : Nat → List Param → List Edit
  | _, [] => []
  | index, q :: qs =>
    match args[index]? with
    | some (.literal (.int n)) =>
      (q.kind.nearby n).map (.tweak location index (some n)) ++
        tweaksOf location args (index + 1) qs
    | some _ => tweaksOf location args (index + 1) qs
    | none =>
      match q.default? with
      | some d =>
        if index = args.length then
          (q.kind.nearby d).map (.tweak location index none) ++
            tweaksOf location args (index + 1) qs
        else []
      | none => []

/-- Tweaks of one node. -/
def tweaksAt (reg : Registry) (location : Path) : Program → List Edit
  | .call name args =>
    match reg.get? name with
    | some prim => tweaksOf location args 0 prim.params
    | none => []
  | _ => []

/-- The number of places for a new step at a node: around the steps of a composition, and
before and after a call that is the whole program. -/
def slots (location : Path) : Program → Nat
  | .compose steps => steps.length + 1
  | .call .. => if location.isEmpty then 2 else 0
  | .literal _ => 0

/-- Insertions of the given steps at one node. -/
def insertionsAt (steps : List Program) (location : Path) (node : Program) : List Edit :=
  (List.range (slots location node)).flatMap fun index =>
    steps.map fun step => .insert location index step

/-- Removals of the steps of one node. -/
def removalsAt (location : Path) : Program → List Edit
  | .compose steps =>
    if 2 ≤ steps.length then
      (List.range steps.length).map fun index => .remove (location.child index)
    else []
  | _ => []

/-- Exchanges of neighboring steps that differ, from an index on. -/
def exchangesFrom (location : Path) : Nat → List Program → List Edit
  | index, p :: q :: rest =>
    (if p = q then [] else [.reorder (location.child index)]) ++
      exchangesFrom location (index + 1) (q :: rest)
  | _, _ => []

/-- Exchanges of the steps of one node. -/
def exchangesAt (location : Path) : Program → List Edit
  | .compose steps => exchangesFrom location 0 steps
  | _ => []

/-- The edits of a family. -/
def edits (reg : Registry) (steps : List Program) (p : Program) (family : Edit.Family) :
    List Edit :=
  p.walk.flatMap fun (location, node) =>
    match family with
    | .swap => swapsOf reg location node
    | .tweak => tweaksAt reg location node
    | .insert => insertionsAt steps location node
    | .remove => removalsAt location node
    | .reorder => exchangesAt location node

/-- The candidates of several families, one family after the other. -/
def all (reg : Registry) (order : List Edit.Family) (steps : List Program) (p : Program) :
    List Candidate :=
  order.flatMap fun family => candidates p (edits reg steps p family)

/-! ## Membership -/

variable {edit : Edit} {location : Path} {node : Program} {steps : List Program}

/-- The insertions at a node put one of the steps into one of the places. -/
theorem mem_insertionsAt_iff : edit ∈ insertionsAt steps location node ↔
    ∃ index step, edit = .insert location index step ∧ index < slots location node ∧
      step ∈ steps := by
  unfold insertionsAt
  simp only [List.mem_flatMap, List.mem_range, List.mem_map]
  constructor
  · rintro ⟨index, hindex, step, hstep, rfl⟩
    exact ⟨index, step, rfl, hindex, hstep⟩
  · rintro ⟨index, step, rfl, hindex, hstep⟩
    exact ⟨index, hindex, step, hstep, rfl⟩

/-- The removals at a node are those of the steps of a composition of at least two. -/
theorem mem_removalsAt_iff : edit ∈ removalsAt location node ↔
    ∃ index steps, edit = .remove (location.child index) ∧ node = .compose steps ∧
      2 ≤ steps.length ∧ index < steps.length := by
  cases node with
  | call name args => simp [removalsAt]
  | compose steps =>
    unfold removalsAt
    rw [List.mem_ite_nil_right, List.mem_map]
    constructor
    · rintro ⟨htwo, index, hindex, rfl⟩
      exact ⟨index, steps, rfl, rfl, htwo, List.mem_range.1 hindex⟩
    · rintro ⟨index, steps', rfl, hsteps, htwo, hindex⟩
      obtain rfl := Program.compose.inj hsteps
      exact ⟨htwo, index, List.mem_range.2 hindex, rfl⟩
  | literal v => simp [removalsAt]

/-- The exchanges of steps are those of neighbors that differ. -/
theorem mem_exchangesFrom_iff {index : Nat} : edit ∈ exchangesFrom location index steps ↔
    ∃ i first second, edit = .reorder (location.child (index + i)) ∧ steps[i]? = some first ∧
      steps[i + 1]? = some second ∧ first ≠ second := by
  induction steps generalizing index with
  | nil => simp [exchangesFrom]
  | cons first rest ih =>
    cases rest with
    | nil => simp [exchangesFrom]
    | cons second rest =>
      rw [exchangesFrom, List.mem_append, ih]
      constructor
      · rintro (h | ⟨i, x, y, rfl, hx, hy, hne⟩)
        · split at h
          · cases h
          · next hne => exact ⟨0, first, second, List.mem_singleton.1 h, rfl, rfl, hne⟩
        · exact ⟨i + 1, x, y, by rw [Nat.add_assoc, Nat.add_comm 1 i], hx, hy, hne⟩
      · rintro ⟨i, x, y, rfl, hx, hy, hne⟩
        cases i with
        | zero =>
          obtain rfl := Option.some.inj hx
          obtain rfl := Option.some.inj hy
          rw [if_neg hne]
          exact .inl (List.mem_singleton_self _)
        | succ i =>
          exact .inr ⟨i, x, y, by rw [Nat.add_assoc, Nat.add_comm 1 i], hx, hy, hne⟩

/-- The exchanges at a node are those of neighbors that differ among the steps of a composition. -/
theorem mem_exchangesAt_iff : edit ∈ exchangesAt location node ↔
    ∃ index steps first second, edit = .reorder (location.child index) ∧ node = .compose steps ∧
      steps[index]? = some first ∧ steps[index + 1]? = some second ∧ first ≠ second := by
  cases node with
  | call name args => simp [exchangesAt]
  | compose steps =>
    rw [exchangesAt, mem_exchangesFrom_iff]
    simp only [Nat.zero_add, Program.compose.injEq]
    constructor
    · rintro ⟨index, first, second, hedit, hsteps⟩
      exact ⟨index, steps, first, second, hedit, rfl, hsteps⟩
    · rintro ⟨index, _, first, second, hedit, rfl, hsteps⟩
      exact ⟨index, first, second, hedit, hsteps⟩
  | literal v => simp [exchangesAt]

/-- A candidate is an edit of the list that applies, with its result. -/
theorem mem_candidates_iff {p : Program} {offered : List Edit} {c : Candidate} :
    c ∈ candidates p offered ↔ c.edit ∈ offered ∧ c.edit.apply p = .ok c.program := by
  unfold candidates
  rw [List.mem_filterMap]
  constructor
  · rintro ⟨edit, hedit, h⟩
    cases happly : edit.apply p with
    | error fault => simp [happly] at h
    | ok q =>
      simp only [happly, Option.some.injEq] at h
      rw [← h]
      exact ⟨hedit, happly⟩
  · rintro ⟨hedit, happly⟩
    exact ⟨c.edit, hedit, by rw [happly]⟩

/-- The candidates of several families are those of each. -/
theorem mem_all_iff {reg : Registry} {order : List Edit.Family} {p : Program} {c : Candidate} :
    c ∈ all reg order steps p ↔ ∃ family ∈ order,
      c.edit ∈ edits reg steps p family ∧ c.edit.apply p = .ok c.program := by
  unfold all
  simp only [List.mem_flatMap, mem_candidates_iff]

end Proposal

end GridRepair
