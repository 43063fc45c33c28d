/-
# Invariants hold of what they are learned from

The invariants of a task are learned from its examples, so a correct prediction for an example agrees
with them: the ratio of all pairs, applied to an input, gives back the shape of its output
(`Ratio.shapeFor?_between`), and the palettes are unions over all examples.  The one exception is the
palette of the inputs, which an output may leave when the task adds a color (`Task.AddsColor`).

So the check of shapes before an evaluation never refuses a program that solves the first example, and
a program that solves all of them satisfies the invariants of the task, less the palette of the inputs
where a color is added (`Program.plausible_of_exact`).

The ratio is applied in the range of counts.  An input whose products leave it gets no answer, although
its output has the right shape: the invariants of a task with such a pair cannot be checked even against
what they were learned from (`Program.not_plausible_towers`).
-/
import GridRepair.Catalogue
import GridRepair.Proofs.Certification
import GridRepair.Proofs.Ratios

namespace GridRepair

/-! ## Examples and their invariants -/

/-- Some color of a training output occurs in no training input; pairs without output do not count. -/
def Task.AddsColor (t : Task) : Prop :=
  ∃ e ∈ t.examples, ∃ c ∈ e.output.cells, ∀ e' ∈ t.examples, c ∉ e'.input.cells

instance (t : Task) : Decidable t.AddsColor :=
  inferInstanceAs (Decidable (∃ e ∈ t.examples, _))

namespace Invariants

variable {es : List Example} {e : Example} {i : Invariant}

/-- An output agrees with every invariant of its task other than the palette of the inputs. -/
theorem agrees_output (he : e ∈ es) (hinput : e.input.Valid) (hpresent : i ∈ (ofExamples es).present)
    (hi : i ≠ .inputPalette) : (ofExamples es).agrees e.input e.output i = true := by
  rw [mem_present] at hpresent
  cases i with
  | fixedShape =>
    obtain ⟨s, hs⟩ := Option.isSome_iff_exists.1 hpresent
    have hshared := hs
    rw [fixedShape?_ofExamples, shared_eq_some_iff] at hshared
    simp only [agrees, hs, hshared.2 e he, decide_true]
  | ratio =>
    obtain ⟨q, hq⟩ := Option.isSome_iff_exists.1 hpresent
    have hshared := hq
    rw [ratio?_ofExamples, shared_eq_some_iff] at hshared
    have hshape : q.exactShape? e.input.shape = some e.output.shape := by
      rw [← hshared.2 e he]
      exact Ratio.exactShape?_between ⟨hinput.1, hinput.2.1⟩
    simp only [agrees, hq, Option.bind_some, hshape, decide_true]
  | inputPalette => exact absurd rfl hi
  | outputPalette =>
    refine Palette.subset_iff.2 fun c hc => ?_
    exact mem_outputPalette.2 ⟨e, he, Grid.mem_palette.1 hc⟩
  | palettePreserved =>
    have hall : (ofExamples es).palettePreserved = true := hpresent
    have hsame := hall
    rw [palettePreserved_ofExamples, Bool.and_eq_true, List.all_eq_true] at hsame
    have hpalette : e.output.palette = e.input.palette :=
      (of_decide_eq_true (hsame.2 e he)).symm
    simp only [agrees, hall, hpalette, decide_true, Bool.and_self]

/-- An output passes the check of every present invariant other than the palette of the inputs; the
check of the ratio ends in a breach out of range. -/
theorem holds_output (he : e ∈ es) (hinput : e.input.Valid) (hpresent : i ∈ (ofExamples es).present)
    (hi : i ≠ .inputPalette) : (ofExamples es).holds e.input e.output i =
      if i = .ratio ∧ ¬ (ofExamples es).Fits e.input then .error (.breach .ratio) else .ok true := by
  by_cases hratio : i = .ratio
  · subst hratio
    rw [holds_ratio he hinput (mem_present.1 hpresent), decide_eq_true rfl]
    by_cases hfits : (ofExamples es).Fits e.input
    · rw [if_pos hfits, if_neg fun h => h.2 hfits]
    · rw [if_neg hfits, if_pos ⟨rfl, hfits⟩]
  · rw [if_neg fun h => hratio h.1, holds_of_ne_ratio hratio, agrees_output he hinput hpresent hi]

/-- An output agrees with the palette of the inputs when each of its colors occurs in an input. -/
theorem agrees_inputPalette_iff {input predicted : Grid} :
    (ofExamples es).agrees input predicted .inputPalette = true ↔
      ∀ c ∈ predicted.cells, ∃ e ∈ es, c ∈ e.input.cells := by
  rw [agrees, Palette.subset_iff]
  simp only [Grid.mem_palette, mem_inputPalette]

/-- All outputs agree with a present invariant, unless it is the palette of the inputs and the task
adds a color. -/
theorem all_agree_iff {t : Task} (hvalid : ∀ e ∈ t.examples, e.input.Valid)
    (hpresent : i ∈ (ofTask t).present) :
    (∀ e ∈ t.examples, (ofTask t).agrees e.input e.output i = true) ↔
      (t.AddsColor → i ≠ .inputPalette) := by
  by_cases hi : i = .inputPalette
  · subst hi
    constructor
    · rintro hall ⟨e, he, c, hc, hnew⟩ -
      obtain ⟨e', he', hc'⟩ := agrees_inputPalette_iff.1 (hall e he) c hc
      exact hnew e' he' hc'
    · intro hnone e he
      refine agrees_inputPalette_iff.2 fun c hc => by_contra fun hnew => ?_
      exact hnone ⟨e, he, c, hc, fun e' he' hc' => hnew ⟨e', he', hc'⟩⟩ rfl
  · exact iff_of_true (fun e he => agrees_output he (hvalid e he) hpresent hi) fun _ => hi

/-- With an input that has a cell, the palette of the inputs is present. -/
theorem inputPalette_mem_present (he : e ∈ es) (hinput : e.input.Valid) :
    .inputPalette ∈ (ofExamples es).present := by
  have hsize : 0 < e.input.cells.size := by
    rw [e.input.size_cells]
    exact Nat.mul_pos hinput.1 hinput.2.1
  have hcolor : e.input.cells[0] ∈ (ofExamples es).inputPalette :=
    mem_inputPalette.2 ⟨e, he, Array.getElem_mem hsize⟩
  rw [mem_present, exhibits, Bool.not_eq_true', ← Bool.not_eq_true, Palette.isEmpty_iff]
  exact fun hempty => hempty _ hcolor

/-- An output breaks no invariant on shapes, and out of range this cannot be checked. -/
theorem brokenShapes_output (he : e ∈ es) (hinput : e.input.Valid) :
    (ofExamples es).brokenShapes e.input e.output =
      if (ofExamples es).Fits e.input then .ok [] else .error (.breach .ratio) := by
  have hcheck : ∀ i, (ofExamples es).exhibits i = true → i ≠ .inputPalette →
      ((ofExamples es).holds e.input e.output i).map (!·) =
        if i = .ratio ∧ ¬ (ofExamples es).Fits e.input then .error (.breach .ratio)
        else .ok false := by
    intro i hi hne
    rw [holds_output he hinput (mem_present.2 hi) hne]
    split <;> rfl
  rw [brokenShapes]
  by_cases hfits : (ofExamples es).Fits e.input
  · rw [if_pos hfits]
    -- every check has a result, and no invariant is broken
    rw [passing_of_ok (fun _ => false) fun i hi => ?_]
    · rw [List.filter_eq_nil_iff.2 fun i _ => Bool.false_ne_true]
    · obtain ⟨hshape, hpresent⟩ := List.mem_filter.1 hi
      have hne : i ≠ .inputPalette := by
        rintro rfl
        simp at hshape
      rw [hcheck i hpresent hne, if_neg fun h => h.2 hfits]
  · have hratio : (ofExamples es).exhibits .ratio = true := by
      rw [Fits] at hfits
      push Not at hfits
      obtain ⟨q, hq, -⟩ := hfits
      exact Option.isSome_iff_exists.2 ⟨q, hq⟩
    have hbreach := hcheck .ratio hratio (by decide)
    rw [if_pos ⟨rfl, hfits⟩] at hbreach
    rw [if_neg hfits, List.filter_cons, List.filter_cons, if_pos hratio, List.filter_nil]
    -- the shape of all outputs may be looked at first
    by_cases hshape : (ofExamples es).exhibits .fixedShape = true
    · have hkeeps := hcheck .fixedShape hshape (by decide)
      rw [if_neg fun h => absurd h.1 (by decide)] at hkeeps
      rw [if_pos hshape, passing, hkeeps, ok_bind, passing, hbreach]
      rfl
    · rw [if_neg hshape, passing, hbreach]
      rfl

end Invariants

/-! ## Exact programs -/

namespace Program

variable {S : Type} [Scalar S] {reg : Registry} {p : Program} {strictness : Strictness} {t : Task}

/-- A program that solves all examples, of which there is one, satisfies the invariants that all
outputs agree with. -/
theorem satisfied_of_exactAll {v : Verdict S} (h : p.evaluate reg strictness t = .ok v)
    (hexact : v.exactAll = true) :
    t.examples ≠ [] ∧ v.satisfied = (Invariants.ofTask t).present.filter fun i =>
      t.examples.all fun e => (Invariants.ofTask t).agrees e.input e.output i := by
  obtain ⟨outs, within, satisfied, cost, hpred, -, hsatisfied, -, rfl⟩ := evaluate_eq_ok_iff.1 h
  obtain ⟨hne, rfl⟩ := (exactAll_judge_iff hpred).1 hexact
  have hzip : t.examples.zip (t.examples.map Example.output) =
      t.examples.map fun e => (e, e.output) := by
    rw [← List.zip_map', List.map_id']
  refine ⟨hne, ?_⟩
  show satisfied = _
  rw [Invariants.satisfied_eq_ok hsatisfied, hzip]
  simp only [List.all_map, Function.comp_def]

/-- **Invariants never speak against a correct program, in range.**  Every output agrees with the
invariants on shapes and with every present invariant other than the palette of the inputs, where the
products with the ratio of the task are in range; else the check of the ratio is a breach, and all other
checks are as before.  So a program that solves the first example passes the check of shapes, with the
same proviso, and one that solves all examples satisfies what is present, less the palette of the inputs
if and only if the task adds a color. -/
theorem plausible_of_exact (reg : Registry) (p : Program) (t : Task)
    (hinputs : ∀ q ∈ t.train, q.input.Valid) :
    (∀ q ∈ t.train, ∀ out, q.output? = some out →
      (Invariants.ofTask t).brokenShapes q.input out =
        (if (Invariants.ofTask t).Fits q.input then .ok [] else .error (.breach .ratio)) ∧
      ∀ i ∈ (Invariants.ofTask t).present, i ≠ .inputPalette →
        (Invariants.ofTask t).holds q.input out i =
          if i = .ratio ∧ ¬ (Invariants.ofTask t).Fits q.input then .error (.breach .ratio)
          else .ok true) ∧
    ((∀ e ∈ t.examples.head?, p.run reg e.input = .ok e.output) → p.shapesFit reg t =
      if ∀ e ∈ t.examples.head?, (Invariants.ofTask t).Fits e.input then .ok true
      else .error (.breach .ratio)) ∧
    ∀ (strictness : Strictness) (v : Verdict S), p.evaluate reg strictness t = .ok v →
      v.exactAll = true →
      .inputPalette ∈ (Invariants.ofTask t).present ∧
        v.satisfied =
          if t.AddsColor then (Invariants.ofTask t).present.filter (· ≠ .inputPalette)
          else (Invariants.ofTask t).present := by
  have hvalid : ∀ e ∈ t.examples, e.input.Valid := by
    intro e he
    obtain ⟨q, hq, hin, -⟩ := Task.mem_examples.1 he
    exact hin ▸ hinputs q hq
  refine ⟨fun q hq out hout => ?_, fun hfirst => ?_, fun strictness v h hexact => ?_⟩
  · have he : ⟨q.input, out⟩ ∈ t.examples := Task.mem_examples.2 ⟨q, hq, rfl, hout⟩
    exact ⟨Invariants.brokenShapes_output he (hinputs q hq), fun i hpresent hi =>
      Invariants.holds_output he (hinputs q hq) hpresent hi⟩
  · rw [shapesFit]
    cases hes : t.examples with
    | nil => simp
    | cons e es =>
      have he : e ∈ t.examples := hes ▸ List.mem_cons_self
      have hrun : p.run reg e.input = .ok e.output := hfirst e (by rw [hes]; rfl)
      have hbroken := Invariants.brokenShapes_output he (hvalid e he)
      simp only [hrun, ok_bind, Invariants.ofTask, hbroken, List.head?_cons, Option.mem_def,
        Option.some.injEq, forall_eq']
      split <;> rfl
  · obtain ⟨hne, hsatisfied⟩ := satisfied_of_exactAll h hexact
    obtain ⟨e, he⟩ := List.exists_mem_of_ne_nil _ hne
    have hkept : ∀ i ∈ (Invariants.ofTask t).present,
        (t.examples.all fun e => (Invariants.ofTask t).agrees e.input e.output i) =
          decide (t.AddsColor → i ≠ .inputPalette) := by
      intro i hpresent
      rw [Bool.eq_iff_iff, List.all_eq_true, Invariants.all_agree_iff hvalid hpresent,
        decide_eq_true_iff]
    refine ⟨Invariants.inputPalette_mem_present he (hvalid e he), ?_⟩
    rw [hsatisfied, List.filter_congr hkept]
    split
    · next hadds => simp [hadds]
    · next hadds => simp [hadds]

/-- A quarter turn, and then another color. -/
def paintedTurn : Program :=
  .compose [.apply "rotate90" [.int 1], .apply "recolor" [.int 1, .int 5]]

end Program

/-- A task that a quarter turn and another color solve.  Heights grow by a half and widths shrink by a
third, and the new color occurs in no input. -/
def Task.paintedTurn : Task where
  name := "painted turn"
  train :=
    [⟨⟨2, 3, #[1, 0, 2, 0, 0, 1], rfl⟩, some ⟨3, 2, #[0, 5, 0, 0, 5, 2], rfl⟩⟩,
      ⟨⟨1, 1, #[3], rfl⟩, none⟩,
      ⟨⟨4, 6, #[1, 1, 1, 1, 1, 1, 0, 0, 0, 0, 0, 0, 0, 0, 0, 0, 0, 0, 2, 2, 2, 2, 2, 2], rfl⟩,
        some ⟨6, 4, #[2, 0, 0, 5, 2, 0, 0, 5, 2, 0, 0, 5, 2, 0, 0, 5, 2, 0, 0, 5, 2, 0, 0, 5], rfl⟩⟩]
  test := []

namespace Program

/-- The painted turn passes the check of shapes, and misses only the palette of the inputs. -/
theorem plausible_paintedTurn :
    (∀ q ∈ Task.paintedTurn.train, q.input.Valid) ∧
      (Invariants.ofTask .paintedTurn).ratio? = some ⟨⟨3, 2⟩, ⟨2, 3⟩⟩ ∧
      (Invariants.ofTask .paintedTurn).brokenShapes ⟨2, 3, #[1, 0, 2, 0, 0, 1], rfl⟩
        ⟨3, 2, #[0, 5, 0, 0, 5, 2], rfl⟩ = .ok [] ∧
      (∀ e ∈ Task.paintedTurn.examples.head?, paintedTurn.run .standard e.input = .ok e.output) ∧
      paintedTurn.shapesFit .standard .paintedTurn = .ok true ∧
      ∃ v : Verdict Rat, paintedTurn.evaluate .standard .standard .paintedTurn = .ok v ∧
        v.exactAll = true ∧ Task.paintedTurn.AddsColor ∧
        (Invariants.ofTask .paintedTurn).present = [.ratio, .inputPalette, .outputPalette] ∧
        v.satisfied = [.ratio, .outputPalette] := by
  have hinputs : ∀ q ∈ Task.paintedTurn.train, q.input.Valid := by decide +kernel
  have hadds : Task.paintedTurn.AddsColor := by decide +kernel
  have hpresent : (Invariants.ofTask .paintedTurn).present =
      [.ratio, .inputPalette, .outputPalette] := by decide +kernel
  have hfirst : ∀ e ∈ Task.paintedTurn.examples.head?,
      paintedTurn.run .standard e.input = .ok e.output := by
    intro e he
    obtain rfl := Option.some.inj he
    obtain ⟨out, hrun, rfl⟩ : ∃ out,
        paintedTurn.run .standard ⟨2, 3, #[1, 0, 2, 0, 0, 1], rfl⟩ = .ok out ∧
          out = ⟨3, 2, #[0, 5, 0, 0, 5, 2], rfl⟩ := exists_ok_of_map (by decide +kernel)
    exact hrun
  obtain ⟨v, hv, hexact⟩ : ∃ v : Verdict Rat,
      paintedTurn.evaluate .standard .standard .paintedTurn = .ok v ∧ v.exactAll = true :=
    exists_ok_of_map (by decide +kernel)
  obtain ⟨houtputs, hfits, hsatisfied⟩ :=
    plausible_of_exact (S := Rat) .standard paintedTurn .paintedTurn hinputs
  refine ⟨hinputs, by decide +kernel, (houtputs _ List.mem_cons_self _ rfl).1, hfirst, hfits hfirst, v,
    hv, hexact, hadds, hpresent, ?_⟩
  rw [(hsatisfied .standard v hv hexact).2, if_pos hadds, hpresent]
  rfl

end Program

namespace Program

/-- With `2 ^ 32 + 1` rows in the input and `2 ^ 32` in the output, the product of both leaves the range
of counts, and the check of shapes has no answer for the output itself. -/
theorem not_plausible_towers : ¬ ∀ t : Task,
    (∀ q ∈ t.train, q.input.Valid ∧ ∀ out ∈ q.output?, out.Valid) →
    ∀ q ∈ t.train, ∀ out, q.output? = some out →
      (Invariants.ofTask t).brokenShapes q.input out = .ok [] := by
  intro h
  have hvalid : ∀ q ∈ (Task.towers (2 ^ 32) [1]).train,
      q.input.Valid ∧ ∀ out ∈ q.output?, out.Valid := Task.valid_towers (by decide) (by decide)
  have hexample : ⟨.full ((2 ^ 32 + 1) * 1) 1 0, .full (2 ^ 32 * 1) 1 0⟩ ∈
      (Task.towers (2 ^ 32) [1]).examples := by
    rw [Task.examples_towers]
    exact List.mem_singleton_self _
  have hover : ¬ (Invariants.ofTask (.towers (2 ^ 32) [1])).Fits (.full ((2 ^ 32 + 1) * 1) 1 0) := by
    rw [Invariants.fits_towers_iff (List.cons_ne_nil _ _) (by decide)]
    decide
  have hplausible := h _ hvalid _ (List.mem_singleton_self _) _ rfl
  have hbreach := (Invariants.brokenShapes_output hexample
    (hvalid _ (List.mem_singleton_self _)).1).trans (if_neg hover)
  cases hbreach.symm.trans hplausible

end Program

end GridRepair
