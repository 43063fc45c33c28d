/-
# Examples of a task

The examples of a task are its training pairs with an output (`Task.mem_examples`).  What they have in
common is told without a first one: a value that all of them share (`shared`), and palettes that hold
exactly the colors of their inputs and of their outputs (`Invariants.mem_inputPalette`,
`Invariants.mem_outputPalette`).
-/
import Mathlib.Data.List.Basic
import GridRepair.Invariant

namespace GridRepair

/-- The examples are the training pairs with an output. -/
theorem Task.mem_examples {t : Task} {e : Example} :
    e ∈ t.examples ↔ ∃ q ∈ t.train, q.input = e.input ∧ q.output? = some e.output := by
  simp only [examples, List.mem_filterMap, Pair.example?, Option.map_eq_some_iff]
  constructor
  · rintro ⟨q, hq, out, hout, rfl⟩
    exact ⟨q, hq, rfl, hout⟩
  · rintro ⟨q, hq, hin, hout⟩
    refine ⟨q, hq, e.output, hout, ?_⟩
    rw [hin]

/-- A task that a quarter turn solves. -/
def Task.quarterTurn : Task where
  name := "quarter turn"
  train :=
    [⟨⟨2, 2, #[1, 0, 0, 0], rfl⟩, some ⟨2, 2, #[0, 1, 0, 0], rfl⟩⟩,
      ⟨⟨1, 2, #[3, 3], rfl⟩, none⟩,
      ⟨⟨2, 2, #[2, 2, 0, 0], rfl⟩, some ⟨2, 2, #[0, 2, 0, 2], rfl⟩⟩]
  test := [⟨⟨1, 2, #[1, 2], rfl⟩, none⟩]

/-! ## Shared values -/

section Shared

variable {α β : Type} [DecidableEq β] {f : α → β} {xs : List α}

/-- The value that a function has on all members of a list. -/
def shared (f : α → β) : List α → Option β
  | [] => none
  | x :: xs => if xs.all fun y => f y = f x then some (f x) else none

/-- A shared value is the value of every member of a list that has one. -/
theorem shared_eq_some_iff {b : β} : shared f xs = some b ↔ xs ≠ [] ∧ ∀ x ∈ xs, f x = b := by
  cases xs with
  | nil => simp [shared]
  | cons x xs =>
    rw [shared]
    constructor
    · intro h
      split at h
      · next hall =>
        cases h
        refine ⟨List.cons_ne_nil x xs, List.forall_mem_cons.2 ⟨rfl, fun y hy => ?_⟩⟩
        exact of_decide_eq_true (List.all_eq_true.1 hall y hy)
      · cases h
    · rintro ⟨-, hall⟩
      obtain ⟨rfl, hxs⟩ := List.forall_mem_cons.1 hall
      exact if_pos (List.all_eq_true.2 fun y hy => decide_eq_true (hxs y hy))

end Shared

/-! ## Invariants -/

namespace Invariants

/-- The colors collected over a list of examples. -/
theorem mem_foldl_union {f : Example → Grid} {es : List Example} {s : Palette} {c : Color} :
    c ∈ es.foldl (fun s x => s.union (f x).palette) s ↔
      c ∈ s ∨ ∃ x ∈ es, c ∈ (f x).cells := by
  induction es generalizing s with
  | nil => simp
  | cons e es ih =>
    rw [List.foldl_cons, ih, Palette.mem_union, Grid.mem_palette, List.exists_mem_cons_iff,
      or_assoc]

/-- Invariants in terms of shared values. -/
theorem fixedShape?_ofExamples (es : List Example) :
    (ofExamples es).fixedShape? = shared (fun e => e.output.shape) es := by
  cases es <;> rfl

theorem ratio?_ofExamples (es : List Example) : (ofExamples es).ratio? = shared ratioOf es := by
  cases es <;> rfl

/-- The input palette holds the colors of the inputs. -/
theorem mem_inputPalette {es : List Example} {c : Color} :
    c ∈ (ofExamples es).inputPalette ↔ ∃ e ∈ es, c ∈ e.input.cells := by
  cases es with
  | nil => simp [ofExamples, none]
  | cons e es => simp [ofExamples, mem_foldl_union, -List.foldl_cons]

theorem palettePreserved_ofExamples (es : List Example) :
    (ofExamples es).palettePreserved =
      (!es.isEmpty && es.all fun e => e.input.palette = e.output.palette) := by
  cases es <;> rfl

/-- The output palette holds the colors of the outputs. -/
theorem mem_outputPalette {es : List Example} {c : Color} :
    c ∈ (ofExamples es).outputPalette ↔ ∃ e ∈ es, c ∈ e.output.cells := by
  cases es with
  | nil => simp [ofExamples, none]
  | cons e es => simp [ofExamples, mem_foldl_union, -List.foldl_cons]

/-- A grid stays within the output palette when each of its colors occurs in an output. -/
theorem subset_outputPalette_iff {t : Task} {g : Grid} :
    g.palette.subset (ofTask t).outputPalette = true ↔
      ∀ c ∈ g.cells, ∃ q ∈ t.train, ∃ out, q.output? = some out ∧ c ∈ out.cells := by
  rw [Palette.subset_iff]
  refine forall_congr' fun c => ?_
  rw [Grid.mem_palette, ofTask, mem_outputPalette]
  refine imp_congr_right fun _ => ?_
  constructor
  · rintro ⟨e, he, hc⟩
    obtain ⟨q, hq, -, hout⟩ := Task.mem_examples.1 he
    exact ⟨q, hq, e.output, hout, hc⟩
  · rintro ⟨q, hq, out, hout, hc⟩
    exact ⟨⟨q.input, out⟩, Task.mem_examples.2 ⟨q, hq, rfl, hout⟩, hc⟩

end Invariants

end GridRepair
