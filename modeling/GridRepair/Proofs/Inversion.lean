/-
# Reading results backwards

A computation that may fail and gave a result tells what its parts gave: `bind_eq_ok` takes a
sequence apart, `map_eq_ok` a change of the result.
-/
import GridRepair.Fault

namespace GridRepair

/-- A sequence gives a result when its first part gives one and the rest gives it from there. -/
theorem bind_eq_ok {α β : Type} {x : Except Fault α} {f : α → Except Fault β} {b : β} :
    (x >>= f) = .ok b ↔ ∃ a, x = .ok a ∧ f a = .ok b := by
  cases x <;> simp [bind, Except.bind]

/-- A sequence fails with its first part, or else with the rest. -/
theorem bind_eq_error {α β : Type} {x : Except Fault α} {f : α → Except Fault β}
    {fault : Fault} :
    (x >>= f) = .error fault ↔
      x = .error fault ∨ ∃ a, x = .ok a ∧ f a = .error fault := by
  cases x <;> simp [bind, Except.bind]

/-- A change of the result gives a result where there was one. -/
theorem map_eq_ok {α β : Type} {x : Except Fault α} {f : α → β} {b : β} :
    x.map f = .ok b ↔ ∃ a, x = .ok a ∧ f a = b := by
  cases x <;> simp [Except.map]

/-- A change of the result keeps faults. -/
theorem map_eq_error {α β : Type} {x : Except Fault α} {f : α → β} {fault : Fault} :
    x.map f = .error fault ↔ x = .error fault := by
  cases x <;> simp [Except.map]

/-- A plain result is that result. -/
theorem pure_eq_ok {α : Type} {a b : α} : (pure a : Except Fault α) = .ok b ↔ a = b := by
  simp [pure, Except.pure]

/-- A checked result is there when the check is passed. -/
theorem check_eq_ok {α : Type} {a b : α} {fault : Fault} {c : Prop} [Decidable c] :
    (if c then .ok a else .error fault : Except Fault α) = .ok b ↔ c ∧ a = b := by
  by_cases hc : c <;> simp [hc]

/-- What is refused on a condition is there when the condition fails. -/
theorem refuse_eq_ok {α : Type} {a b : α} {fault : Fault} {c : Prop} [Decidable c] :
    (if c then .error fault else .ok a : Except Fault α) = .ok b ↔ ¬ c ∧ a = b := by
  rw [← ite_not, check_eq_ok]

/-- After a result, a sequence goes on from it. -/
@[simp] theorem ok_bind {α β : Type} (a : α) (f : α → Except Fault β) :
    ((.ok a : Except Fault α) >>= f) = f a := rfl

/-- After a fault, nothing goes on. -/
@[simp] theorem error_bind {α β : Type} (fault : Fault) (f : α → Except Fault β) :
    ((.error fault : Except Fault α) >>= f) = .error fault := rfl

/-- A result of which something is known is a result. -/
theorem exists_ok_of_map {α β : Type} {x : Except Fault α} {f : α → β} {b : β}
    (h : x.toOption.map f = some b) : ∃ a, x = .ok a ∧ f a = b := by
  cases x with
  | error fault => cases h
  | ok a => exact ⟨a, rfl, Option.some.inj h⟩

/-- The fault of a computation that failed. -/
def fault? {α : Type} : Except Fault α → Option Fault
  | .ok _ => none
  | .error fault => some fault

/-- A computation with a fault failed with it. -/
theorem eq_error_of_fault? {α : Type} {x : Except Fault α} {fault : Fault}
    (h : fault? x = some fault) : x = .error fault := by
  cases x with
  | error other => rw [Option.some.inj h]
  | ok a => cases h

end GridRepair
