/-
# Successful evaluations

What a program tells by having a value: its steps but the last one gave grids, and all primitives it
calls are registered (`contains_of_eval`).

The cost of a program is described by the list of its calls: it is the sum of their costs, or the
fault of the first call of a primitive that is not registered, or a breach where the costs before that
leave their range (`billed_cost`, by `Billed`).  As long as the sum is in range, there is no breach
(`cost_eq`), and so a program that has a value has a cost (`cost_of_eval`).
-/
import Mathlib.Algebra.GroupWithZero.Nat
import Mathlib.Data.List.Basic
import Mathlib.Data.List.TakeWhile
import GridRepair.Eval
import GridRepair.Proofs.Inversion

namespace GridRepair

namespace Registry

variable {reg : Registry} {xs : List String} {name : String}

/-- The first name that is not registered. -/
def missing? (reg : Registry) (names : List String) : Option String :=
  names.find? fun name => !reg.contains name

/-- What the primitives of names cost together, up to the first name that is not registered. -/
def paid (reg : Registry) (names : List String) : Nat :=
  ((names.takeWhile reg.contains).map fun name => ((reg.get? name).map Primitive.cost).getD 0).sum

/-- No name is missing when all are registered. -/
theorem missing?_eq_none_iff : reg.missing? xs = none ↔ ∀ name ∈ xs, reg.contains name = true := by
  simp [missing?]

/-- A name that is missing in the first part of a list is the first one. -/
theorem missing?_append_of_some {ys : List String} (h : reg.missing? xs = some name) :
    reg.missing? (xs ++ ys) = some name := by
  rw [missing?, List.find?_append, ← missing?, h, Option.some_or]

/-- Where nothing is missing in the first part of a list, both parts are paid for. -/
theorem paid_append_of_none (h : reg.missing? xs = none) (ys : List String) :
    reg.paid (xs ++ ys) = reg.paid xs + reg.paid ys := by
  have hall := missing?_eq_none_iff.1 h
  rw [paid, List.takeWhile_append_of_pos hall, List.map_append, List.sum_append, paid, paid,
    List.takeWhile_eq_self_iff.2 hall]

/-- Further names do not make a list cheaper. -/
theorem paid_le_append (reg : Registry) (xs ys : List String) :
    reg.paid xs ≤ reg.paid (xs ++ ys) := by
  cases h : reg.missing? xs with
  | none =>
    rw [paid_append_of_none h]
    exact Nat.le_add_right _ _
  | some name =>
    have hlt : ¬ (xs.takeWhile reg.contains).length = xs.length := by
      intro hlength
      have hself := (List.takeWhile_prefix reg.contains).eq_of_length hlength
      rw [missing?_eq_none_iff.2 (List.takeWhile_eq_self_iff.1 hself)] at h
      cases h
    rw [paid, paid, List.takeWhile_append, if_neg hlt]

end Registry

/-- How adding up the costs of calls ends, on top of what was spent before them. -/
inductive Billed (reg : Registry) (spent : Nat) (names : List String) : Except Fault Nat → Prop where
  /-- all names are registered, and the sum is the result -/
  | total (h : reg.missing? names = none) : Billed reg spent names (.ok (spent + reg.paid names))
  /-- the first name that is not registered is the fault -/
  | missing {name : String} (h : reg.missing? names = some name) :
    Billed reg spent names (.error (.unknownPrimitive name))
  /-- the names before that cost more than the range of costs allows -/
  | overrun (h : maxCost < spent + reg.paid names) :
    Billed reg spent names (.error (.breach .cost))

/-- What follows on registered names is added to what they cost. -/
theorem Billed.append {reg : Registry} {spent : Nat} {xs ys : List String} {x : Except Fault Nat}
    (h : Billed reg (spent + reg.paid xs) ys x) (hxs : reg.missing? xs = none) :
    Billed reg spent (xs ++ ys) x := by
  have hpaid : spent + reg.paid (xs ++ ys) = spent + reg.paid xs + reg.paid ys := by
    rw [Registry.paid_append_of_none hxs, Nat.add_assoc]
  have hmissing : reg.missing? (xs ++ ys) = reg.missing? ys := by
    rw [Registry.missing?, List.find?_append, ← Registry.missing?, hxs, Option.none_or,
      Registry.missing?]
  cases h with
  | total h => exact hpaid ▸ .total (hmissing.trans h)
  | missing h => exact .missing (hmissing.trans h)
  | overrun h => exact .overrun (hpaid ▸ h)

namespace Program

variable {reg : Registry} {p : Program}

/-! ## Values -/

/-- A program runs to the grid that it evaluates to. -/
theorem run_eq_ok_iff {g out : Grid} :
    p.run reg g = .ok out ↔ p.eval reg g = .ok (.grid out) := by
  rw [run, bind_eq_ok]
  constructor
  · rintro ⟨v, hv, h⟩
    cases v with
    | grid g' => rw [hv, pure_eq_ok.1 h]
    | int _ => cases h
    | bool _ => cases h
    | colors _ => cases h
    | positions _ => cases h
  · intro h
    exact ⟨_, h, rfl⟩

/-- A single step is evaluated as a program. -/
theorem evalSteps_singleton (p : Program) (g : Grid) : evalSteps reg [p] g = p.eval reg g := by
  rw [evalSteps]

/-- Several steps are evaluated on the grid that the first one gives. -/
theorem evalSteps_cons_eq_ok_iff {ps : List Program} (hne : ps ≠ []) {g : Grid} {v : Value} :
    evalSteps reg (p :: ps) g = .ok v ↔
      ∃ g', p.eval reg g = .ok (.grid g') ∧ evalSteps reg ps g' = .ok v := by
  rw [evalSteps.eq_3 reg g p ps hne, bind_eq_ok]
  constructor
  · rintro ⟨w, hw, h⟩
    cases w with
    | grid g' => exact ⟨g', hw, h⟩
    | int _ => cases h
    | bool _ => cases h
    | colors _ => cases h
    | positions _ => cases h
  · rintro ⟨g', hg', h⟩
    exact ⟨_, hg', h⟩

/-! ## Calls -/

/-- The names of the primitives that a program calls, from left to right. -/
def calls (p : Program) : List String := p.leaves.filterMap name?

/-- The sum of the costs of the primitives that a program calls.  Names that are not registered add
nothing to it. -/
def totalCost (reg : Registry) (p : Program) : Nat :=
  (p.calls.map fun name => ((reg.get? name).map Primitive.cost).getD 0).sum

/-- Where all calls are registered, the total is what is paid for them. -/
theorem paid_calls (h : reg.missing? p.calls = none) : reg.paid p.calls = p.totalCost reg := by
  rw [Registry.paid, List.takeWhile_eq_self_iff.2 (Registry.missing?_eq_none_iff.1 h), totalCost]

/-- The calls before one that is not registered cost no more than all of them. -/
theorem paid_calls_le (p : Program) : reg.paid p.calls ≤ p.totalCost reg := by
  rw [totalCost, ← List.takeWhile_append_dropWhile (p := reg.contains) (l := p.calls),
    List.map_append, List.sum_append, List.takeWhile_append_dropWhile]
  exact Nat.le_add_right _ _

/-- A composition calls what its steps call. -/
theorem calls_compose (steps : List Program) : (compose steps).calls = steps.flatMap calls := by
  rw [calls, leaves, leavesAll_eq_flatMap, List.filterMap_flatMap]
  rfl

/-- Looking up a name fails when it is not registered. -/
theorem find_eq_ok {name : String} {prim : Primitive} (h : reg.find name = .ok prim) :
    reg.get? name = some prim ∧ reg.contains name = true := by
  rw [Registry.find] at h
  cases hget : reg.get? name with
  | none =>
    rw [hget] at h
    cases h
  | some q =>
    rw [hget, Except.ok.injEq] at h
    rw [Registry.contains, hget, h]
    exact ⟨rfl, rfl⟩

mutual

/-- A program that has a value calls registered primitives only. -/
theorem contains_of_eval : ∀ (p : Program) (g : Grid) (v : Value), p.eval reg g = .ok v →
    ∀ name ∈ p.calls, reg.contains name = true
  | .call callee args, g, v, h, name, hname => by
    rw [eval, bind_eq_ok] at h
    obtain ⟨prim, hprim, -⟩ := h
    have hcallee : name = callee := List.mem_singleton.1 hname
    rw [hcallee]
    exact (find_eq_ok hprim).2
  | .compose steps, g, v, h, name, hname => by
    rw [eval] at h
    rw [calls_compose] at hname
    exact contains_of_evalSteps steps g v h name hname
  | .literal _, _, _, _, _, hname => by cases hname

/-- Steps that have a value call registered primitives only. -/
theorem contains_of_evalSteps : ∀ (ps : List Program) (g : Grid) (v : Value),
    evalSteps reg ps g = .ok v → ∀ name ∈ ps.flatMap calls, reg.contains name = true
  | [], _, _, _, _, hname => by cases hname
  | [p], g, v, h, name, hname => by
    rw [evalSteps_singleton] at h
    rw [List.flatMap_singleton] at hname
    exact contains_of_eval p g v h name hname
  | p :: q :: ps, g, v, h, name, hname => by
    obtain ⟨g', hfirst, hrest⟩ := (evalSteps_cons_eq_ok_iff (List.cons_ne_nil q ps)).1 h
    rw [List.flatMap_cons, List.mem_append] at hname
    rcases hname with hname | hname
    · exact contains_of_eval p g (.grid g') hfirst name hname
    · exact contains_of_evalSteps (q :: ps) g' v hrest name hname

end

/-! ## Costs -/

mutual

/-- The cost of a program adds up what its calls cost. -/
theorem billed_cost : ∀ p : Program, Billed reg 0 p.calls (p.cost reg)
  | .call name args => by
    have hcalls : (call name args).calls = [name] := rfl
    rw [cost, hcalls, Registry.find]
    cases hget : reg.get? name with
    | none => exact .missing (by simp [Registry.missing?, Registry.contains, hget])
    | some prim =>
      have hpaid : prim.cost = 0 + reg.paid [name] := by
        simp [Registry.paid, Registry.contains, hget]
      rw [Except.map, hpaid]
      exact .total (by simp [Registry.missing?, Registry.contains, hget])
  | .compose steps => by
    rw [cost, calls_compose]
    exact billed_costFrom steps 0
  | .literal _ => .total rfl

/-- The cost of steps adds up what their calls cost, on top of what was spent. -/
theorem billed_costFrom : ∀ (ps : List Program) (spent : Nat),
    Billed reg spent (ps.flatMap calls) (costFrom reg spent ps)
  | [], spent => by
    rw [costFrom]
    exact .total rfl
  | p :: ps, spent => by
    have hfirst := billed_cost p
    rw [costFrom, List.flatMap_cons]
    generalize p.cost reg = x at hfirst ⊢
    cases hfirst with
    | missing h => exact .missing (Registry.missing?_append_of_some h)
    | overrun h =>
      have hle := reg.paid_le_append p.calls (ps.flatMap calls)
      exact .overrun (by omega)
    | total h =>
      rw [ok_bind, Nat.zero_add]
      have happend := Registry.paid_append_of_none h (ps.flatMap calls)
      split
      · -- the first step has its cost, so the rest goes on from there
        exact (billed_costFrom ps (spent + reg.paid p.calls)).append h
      · exact .overrun (by omega)

end

/-- A program costs what its calls cost together, unless one of them is not registered: then the
first such call is its fault. -/
theorem cost_eq (h : p.totalCost reg ≤ maxCost) :
    p.cost reg = (reg.missing? p.calls).elim (.ok (p.totalCost reg)) fun name =>
      .error (.unknownPrimitive name) := by
  have hbilled : Billed reg 0 p.calls (p.cost reg) := billed_cost p
  generalize p.cost reg = x at hbilled ⊢
  cases hbilled with
  | total hnone => rw [hnone, Option.elim_none, Nat.zero_add, paid_calls hnone]
  | missing hsome => rw [hsome, Option.elim_some]
  | overrun hover =>
    have hle : reg.paid p.calls ≤ p.totalCost reg := paid_calls_le p
    omega

/-- The only fault of a cost in range is that a primitive is not registered. -/
theorem cost_eq_error {fault : Fault} (hfits : p.totalCost reg ≤ maxCost)
    (h : p.cost reg = .error fault) :
    ∃ name ∈ p.calls, reg.contains name = false ∧ fault = .unknownPrimitive name := by
  rw [cost_eq hfits] at h
  cases hmissing : reg.missing? p.calls with
  | none =>
    rw [hmissing] at h
    cases h
  | some name =>
    rw [hmissing] at h
    have hunknown := List.find?_some hmissing
    rw [Bool.not_eq_true'] at hunknown
    exact ⟨name, List.mem_of_find?_eq_some hmissing, hunknown, (Except.error.inj h).symm⟩

/-- A program that has a value has a cost. -/
theorem cost_of_eval {g : Grid} {v : Value} (hfits : p.totalCost reg ≤ maxCost)
    (h : p.eval reg g = .ok v) : p.cost reg = .ok (p.totalCost reg) := by
  have hnone : reg.missing? p.calls = none := by
    rw [Registry.missing?, List.find?_eq_none]
    intro name hname
    rw [contains_of_eval p g v h name hname]
    exact Bool.false_ne_true
  rw [cost_eq hfits, hnone]
  rfl

end Program

end GridRepair
