/-
# What programs cost

With primitives whose costs are in range (`Registry.Priced`), a program of registered calls costs what
they cost together, or that leaves the range (`Program.cost_of_registered`).  The total is a sum over
the calls, so neither the nesting of the compositions nor the order of their steps matters to it
(`Program.totalCost_perm`).  A call that is not registered is found before its cost is asked for: it
is the fault unless the calls before it leave the range (`Program.cost_of_missing`).

Two primitives are enough to leave the range (`Program.not_cost_total`).

An edit adds no more to the total than its `Edit.surcharge`, because it exchanges one block of leaves
(`Edit.totalCost_le_of_apply`).
-/
import GridRepair.Proofs.Neutrality

namespace GridRepair

namespace Program

variable {reg : Registry} {p q : Program} {name : String}

/-- Registered calls cost their total, which can be out of range. -/
theorem cost_of_registered (hpriced : reg.Priced) (h : reg.missing? p.calls = none) :
    p.cost reg =
      if p.totalCost reg ≤ maxCost then .ok (p.totalCost reg) else .error (.breach .cost) := by
  have hbilled : Billed reg 0 p.calls (p.cost reg) := billed_cost p
  generalize hx : p.cost reg = x at hbilled ⊢
  cases hbilled with
  | total _ =>
    rw [Nat.zero_add, paid_calls h] at hx ⊢
    rw [if_pos (cost_le hpriced hx)]
  | missing hsome =>
    rw [h] at hsome
    cases hsome
  | overrun hover =>
    rw [Nat.zero_add, paid_calls h] at hover
    rw [if_neg (Nat.not_le_of_lt hover)]

/-- The first call that is not registered is the fault, unless the calls before it cost too much. -/
theorem cost_of_missing (h : reg.missing? p.calls = some name) :
    p.cost reg = .error (.unknownPrimitive name) ∨
      p.cost reg = .error (.breach .cost) ∧ maxCost < reg.paid p.calls := by
  have hbilled : Billed reg 0 p.calls (p.cost reg) := billed_cost p
  generalize p.cost reg = x at hbilled ⊢
  cases hbilled with
  | total hnone =>
    rw [h] at hnone
    cases hnone
  | missing hsome =>
    rw [h, Option.some.injEq] at hsome
    rw [hsome]
    exact .inl rfl
  | overrun hover =>
    rw [Nat.zero_add] at hover
    exact .inr ⟨rfl, hover⟩

/-- Programs with the same calls, in any order and nesting, have the same total. -/
theorem totalCost_perm (h : p.calls.Perm q.calls) : p.totalCost reg = q.totalCost reg :=
  (h.map _).sum_nat

/-- Programs with the same registered calls, in any order and nesting, cost the same. -/
theorem cost_perm (hpriced : reg.Priced) (hp : reg.missing? p.calls = none)
    (h : p.calls.Perm q.calls) : q.cost reg = p.cost reg := by
  have hq : reg.missing? q.calls = none := by
    rw [Registry.missing?_eq_none_iff] at hp ⊢
    exact fun name hname => hp name (h.mem_iff.2 hname)
  rw [cost_of_registered hpriced hp, cost_of_registered hpriced hq, totalCost_perm h]

/-- **Costs are totals as long as they are in range.**  A program whose calls are all registered costs
what they cost together, and the sum is out of range otherwise.  Where a call is not registered, the
first one is the fault, unless those before it are out of range.  Nesting and order do not matter to
the cost of registered calls. -/
theorem cost_is_total (hpriced : reg.Priced) (p : Program) :
    ((∀ name ∈ p.calls, reg.contains name = true) →
      p.cost reg =
        if p.totalCost reg ≤ maxCost then .ok (p.totalCost reg) else .error (.breach .cost)) ∧
    (∀ name, reg.missing? p.calls = some name →
      p.cost reg = .error (.unknownPrimitive name) ∨
        p.cost reg = .error (.breach .cost) ∧ maxCost < reg.paid p.calls) ∧
    ∀ q : Program, (∀ name ∈ p.calls, reg.contains name = true) → p.calls.Perm q.calls →
      q.cost reg = p.cost reg :=
  ⟨fun h => cost_of_registered hpriced (Registry.missing?_eq_none_iff.2 h),
    fun _ h => cost_of_missing h,
    fun _ h hperm => cost_perm hpriced (Registry.missing?_eq_none_iff.2 h) hperm⟩

end Program

/-- A table of two primitives, the first of which is as costly as can be. -/
def Registry.pricey : Registry :=
  empty.registerAll [⟨"costly", maxCost, [], fun g _ => .ok (.grid g)⟩,
    ⟨"cheap", 1, [], fun g _ => .ok (.grid g)⟩]

/-- The costs of both are in range. -/
theorem Registry.priced_pricey : pricey.Priced :=
  priced_of_forall (by decide +kernel)

/-- The cheap primitive costs what it costs in brackets too, both together are out of range in either
order, and an unknown primitive is found before the costly one is added to the cheap one, not after
it. -/
theorem Program.cost_is_total_pricey :
    let cheap : Program := .call "cheap" []
    let costly : Program := .call "costly" []
    let unknown : Program := .call "unknown" []
    (compose [compose [cheap], compose [cheap, cheap]]).cost .pricey = .ok 3 ∧
    (compose [costly, cheap]).cost .pricey = .error (.breach .cost) ∧
    (compose [cheap, costly]).cost .pricey = (compose [costly, cheap]).cost .pricey ∧
    (compose [cheap, unknown, costly]).cost .pricey = .error (.unknownPrimitive "unknown") := by
  intro cheap costly unknown
  have hrefused := (cost_is_total Registry.priced_pricey (compose [costly, cheap])).1 (by decide)
  refine ⟨((cost_is_total Registry.priced_pricey
      (compose [compose [cheap], compose [cheap, cheap]])).1 (by decide)).trans rfl,
    hrefused.trans rfl,
    (cost_is_total Registry.priced_pricey (compose [costly, cheap])).2.2 _ (by decide) ?_, ?_⟩
  · exact .swap "cheap" "costly" []
  · refine ((cost_is_total Registry.priced_pricey (compose [cheap, unknown, costly])).2.1
      "unknown" rfl).resolve_right fun h => ?_
    exact absurd h.2 (by decide)

/-- Not every program of registered calls costs their total. -/
theorem Program.not_cost_total : ¬ ∀ (reg : Registry) (p : Program), reg.Priced →
    (∀ name ∈ p.calls, reg.contains name = true) → p.cost reg = .ok (p.totalCost reg) := by
  intro h
  have htotal := h .pricey (.compose [.call "costly" [], .call "cheap" []])
    Registry.priced_pricey (by decide)
  cases htotal

/-! ## What an edit adds -/

/-- The cost of the primitive of a name, if it is registered. -/
def Registry.price (reg : Registry) (name : String) : Nat :=
  ((reg.get? name).map Primitive.cost).getD 0

namespace Program

variable {reg : Registry} {p q : Program}

/-- The sum of the costs of the calls among leaves. -/
def priceOf (reg : Registry) (leaves : List Program) : Nat :=
  ((leaves.filterMap name?).map reg.price).sum

/-- The total cost of a program is that of its leaves. -/
theorem totalCost_eq_priceOf (p : Program) : p.totalCost reg = priceOf reg p.leaves := rfl

/-- Leaves in a row cost what they cost one by one. -/
theorem priceOf_append (xs ys : List Program) :
    priceOf reg (xs ++ ys) = priceOf reg xs + priceOf reg ys := by
  rw [priceOf, List.filterMap_append, List.map_append, List.sum_append]
  rfl

/-- Where one block of leaves is exchanged for another one, so is its cost. -/
theorem Rewrites.totalCost_add (reg : Registry) {before old new after : List Program}
    (h : p.Rewrites q before old new after) :
    q.totalCost reg + priceOf reg old = p.totalCost reg + priceOf reg new := by
  simp only [totalCost_eq_priceOf, h.leaves_left, h.leaves_right, priceOf_append]
  omega

end Program

namespace Edit

open Program

variable {reg : Registry} {p q : Program}

/-- The most that an edit adds to the total cost of a program: for a swap the difference of the two
primitives, for an insertion the new step. -/
def surcharge (reg : Registry) : Edit → Nat
  | .swap _ name replacement => reg.price replacement - reg.price name
  | .tweak .. => 0
  | .insert _ _ step => step.totalCost reg
  | .remove _ => 0
  | .reorder _ => 0

/-- An edit adds no more than its surcharge. -/
theorem totalCost_le_of_apply (reg : Registry) {edit : Edit} (h : edit.apply p = .ok q) :
    q.totalCost reg ≤ p.totalCost reg + edit.surcharge reg := by
  have heffect := effect h
  cases edit with
  | swap location name replacement =>
    obtain ⟨-, args, -, hblock⟩ := heffect
    have hcall : ∀ other, priceOf reg [.call other args] = reg.price other := fun _ => Nat.add_zero _
    have hsum := hblock.totalCost_add reg
    rw [hcall, hcall] at hsum
    simp only [surcharge]
    omega
  | tweak location index old? new =>
    obtain ⟨-, name, args, -, -, hblock⟩ := heffect
    exact Nat.le_of_eq (Nat.add_right_cancel (hblock.totalCost_add reg))
  | insert location index step =>
    obtain ⟨node, -, -, hblock⟩ := heffect
    exact Nat.le_of_eq (hblock.totalCost_add reg)
  | remove location =>
    obtain ⟨step, -, hblock⟩ := heffect
    have hsum : q.totalCost reg + step.totalCost reg = p.totalCost reg :=
      hblock.totalCost_add reg
    simp only [surcharge]
    omega
  | reorder location =>
    obtain ⟨parent, index, first, second, -, -, -, hblock⟩ := heffect
    have hsum := hblock.totalCost_add reg
    rw [priceOf_append, priceOf_append] at hsum
    simp only [surcharge]
    omega

end Edit

end GridRepair
