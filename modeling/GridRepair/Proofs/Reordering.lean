/-
# The order of the training pairs

Nothing that is found out about a program depends on the order in which the training pairs stand.
Some computations start from the first example, so for each of these the order is taken out: a value
that all members of a list share (`shared`), the colors that all failing predictions add
(`Hint.mem_addedByAll`), and the replacements of colors, which come out sorted and hold exactly the
replaced pairs (`Hint.replacements?_eq_some_iff`).

The predictions for the examples are then the values of one function, so the comparisons of a
reordered task are the comparisons reordered, and the verdicts agree
(`Program.evaluate_reordered`).

One thing is left to the order.  A check of the ratio stops at the first prediction that disagrees, so
a product out of range is met in one order and not in another
(`Program.not_evaluate_reordered_towers`).
-/
import Mathlib.Algebra.BigOperators.Group.List.Basic
import GridRepair.Proofs.Examples
import GridRepair.Proofs.Grading
import GridRepair.Proofs.Prediction
import GridRepair.Proofs.Ratios

namespace GridRepair

/-! ## Invariants -/

/-- A shared value does not depend on the order. -/
theorem shared_perm {α β : Type} [DecidableEq β] {f : α → β} {xs ys : List α} (h : xs.Perm ys) :
    shared f xs = shared f ys := by
  apply Option.ext
  intro b
  rw [shared_eq_some_iff, shared_eq_some_iff, ← List.length_pos_iff, ← List.length_pos_iff,
    h.length_eq]
  simp only [h.mem_iff]

namespace Invariants

/-- The invariants of examples do not depend on the order. -/
theorem ofExamples_perm {es es' : List Example} (h : es.Perm es') :
    ofExamples es = ofExamples es' := by
  have hinput : (ofExamples es).inputPalette = (ofExamples es').inputPalette :=
    Palette.ext_mem fun c => by simp only [mem_inputPalette, h.mem_iff]
  have houtput : (ofExamples es).outputPalette = (ofExamples es').outputPalette :=
    Palette.ext_mem fun c => by simp only [mem_outputPalette, h.mem_iff]
  have hshape : (ofExamples es).fixedShape? = (ofExamples es').fixedShape? := by
    rw [fixedShape?_ofExamples, fixedShape?_ofExamples, shared_perm h]
  have hratio : (ofExamples es).ratio? = (ofExamples es').ratio? := by
    rw [ratio?_ofExamples, ratio?_ofExamples, shared_perm h]
  have hpreserved : (ofExamples es).palettePreserved = (ofExamples es').palettePreserved := by
    rw [palettePreserved_ofExamples, palettePreserved_ofExamples, h.isEmpty_eq, h.all_eq]
  cases hes : ofExamples es
  cases hes' : ofExamples es'
  simp_all

end Invariants

/-! ## Hints -/

namespace Hint

variable {S : Type}

/-- The factor of all comparisons is a shared value. -/
theorem uniformFactor?_eq (ds : List (Diff S)) :
    uniformFactor? ds = (shared factor? ds).join := by
  cases ds with
  | nil => rfl
  | cons d ds =>
    rw [uniformFactor?, shared]
    cases hd : factor? d with
    | none =>
      simp only
      split <;> rfl
    | some k =>
      simp only
      split <;> rfl

/-- The remark on shapes does not depend on the order. -/
theorem ofShapes_perm {ds ds' : List (Diff S)} (h : ds.Perm ds') : ofShapes ds = ofShapes ds' := by
  rw [ofShapes, ofShapes, uniformFactor?_eq, uniformFactor?_eq, shared_perm h, h.all_eq]

/-- A color is added by all when there is a comparison and each of them has it as extra color. -/
theorem mem_addedByAll {ds : List (Diff S)} {c : Color} :
    c ∈ addedByAll ds ↔ ds ≠ [] ∧ (∀ d ∈ ds, c ∈ d.extraColors) ∧ c ≠ background := by
  have hfold : ∀ (ds : List (Diff S)) (s : Palette),
      c ∈ ds.foldl (fun s e => s.inter e.extraColors) s ↔ c ∈ s ∧ ∀ d ∈ ds, c ∈ d.extraColors := by
    intro ds
    induction ds with
    | nil => simp
    | cons d ds ih =>
      intro s
      rw [List.foldl_cons, ih, Palette.mem_inter, and_assoc, List.forall_mem_cons]
  cases ds with
  | nil => simp [addedByAll]
  | cons d ds =>
    rw [addedByAll, Palette.mem_erase, hfold, List.forall_mem_cons]
    simp

/-- The colors that all add do not depend on the order. -/
theorem addedByAll_perm {ds ds' : List (Diff S)} (h : ds.Perm ds') :
    addedByAll ds = addedByAll ds' :=
  Palette.ext_mem fun c => by
    rw [mem_addedByAll, mem_addedByAll, ← List.length_pos_iff, ← List.length_pos_iff, h.length_eq]
    simp only [h.mem_iff]

/-! ### Replacements -/

/-- The replacements stand by ascending color, one for each color. -/
def Sorted (known : List (Color × Color)) : Prop := known.Pairwise fun x y => x.1 < y.1

/-- A color has one replacement. -/
theorem Sorted.eq_of_mem {known : List (Color × Color)} (h : Sorted known) {a b c : Color}
    (hb : (a, b) ∈ known) (hc : (a, c) ∈ known) : b = c := by
  induction known with
  | nil => cases hb
  | cons x known ih =>
    obtain ⟨hx, hknown⟩ := List.pairwise_cons.1 h
    rcases List.mem_cons.1 hb with rfl | hb'
    · rcases List.mem_cons.1 hc with heq | hc'
      · cases heq
        rfl
      · exact absurd (hx (a, c) hc') (Nat.lt_irrefl a)
    · rcases List.mem_cons.1 hc with rfl | hc'
      · exact absurd (hx (a, b) hb') (Nat.lt_irrefl a)
      · exact ih hknown hb' hc'

/-- Sorted replacements are determined by their members. -/
theorem Sorted.ext {known known' : List (Color × Color)} (h : Sorted known) (h' : Sorted known')
    (hmem : ∀ x, x ∈ known ↔ x ∈ known') : known = known' := by
  have hnodup : ∀ {l : List (Color × Color)}, Sorted l → l.Nodup := by
    intro l hl
    refine hl.imp fun {x y} hlt heq => ?_
    rw [heq] at hlt
    exact Nat.lt_irrefl _ hlt
  have hperm : known.Perm known' :=
    (List.perm_ext_iff_of_nodup (hnodup h) (hnodup h')).2 hmem
  exact hperm.eq_of_pairwise (fun x y _ _ hlt hgt => absurd hlt (Nat.lt_asymm hgt)) h h'

/-- Another replacement is put in its place. -/
theorem of_note {a b : Color} {known known' : List (Color × Color)} (hsorted : Sorted known)
    (h : note a b known = some known') :
    Sorted known' ∧ ∀ x, x ∈ known' ↔ x = (a, b) ∨ x ∈ known := by
  induction known generalizing known' with
  | nil =>
    cases h
    exact ⟨List.pairwise_singleton _ _, fun x => by rw [List.mem_cons]⟩
  | cons y rest ih =>
    obtain ⟨c, d⟩ := y
    obtain ⟨hfirst, hrest⟩ := List.pairwise_cons.1 hsorted
    rw [note] at h
    split at h
    · next hlt =>
      cases h
      refine ⟨List.pairwise_cons.2 ⟨fun y hy => ?_, hsorted⟩, fun x => List.mem_cons⟩
      rcases List.mem_cons.1 hy with rfl | hy
      · exact hlt
      · exact Nat.lt_trans hlt (hfirst y hy)
    · split at h
      · next heq =>
        subst heq
        split at h
        · next heq =>
          cases h
          subst heq
          refine ⟨hsorted, fun x => ?_⟩
          rw [List.mem_cons, or_self_left]
        · cases h
      · next hge hne =>
        obtain ⟨rest', hnote, rfl⟩ := Option.map_eq_some_iff.1 h
        obtain ⟨hsorted', hmem⟩ := ih hrest hnote
        refine ⟨List.pairwise_cons.2 ⟨fun y hy => ?_, hsorted'⟩, fun x => ?_⟩
        · rcases (hmem y).1 hy with rfl | hy
          · exact Nat.lt_of_le_of_ne (Nat.le_of_not_lt hge) (Ne.symm hne)
          · exact hfirst y hy
        · rw [List.mem_cons, List.mem_cons, hmem, or_left_comm]

/-- A replacement finds no place when the color has another one. -/
theorem exists_mem_of_note {a b : Color} {known : List (Color × Color)}
    (h : note a b known = none) : ∃ c, c ≠ b ∧ (a, c) ∈ known := by
  induction known with
  | nil => cases h
  | cons y rest ih =>
    obtain ⟨c, d⟩ := y
    rw [note] at h
    split at h
    · cases h
    · split at h
      · next heq =>
        subst heq
        split at h
        · cases h
        · next hne => exact ⟨d, Ne.symm hne, List.mem_cons_self⟩
      · obtain ⟨e, hne, hmem⟩ := ih (Option.map_eq_none_iff.1 h)
        exact ⟨e, hne, List.mem_cons_of_mem _ hmem⟩

/-- The replacement that a wrong cell asks for. -/
def replacement (c : WrongCell) : Color × Color := (c.predicted, c.expected)

/-- The replacements that explain wrong cells of wrong colors are sorted, and are those that the
cells ask for, next to the known ones; they exist when these can be sorted, with one for each
color. -/
theorem replacements?_eq_some_iff {cs : List WrongCell} {known found : List (Color × Color)}
    (hknown : Sorted known) :
    replacements? cs known = some found ↔
      (∀ c ∈ cs, c.kind = .otherColor) ∧ Sorted found ∧
        ∀ x, x ∈ found ↔ x ∈ known ∨ ∃ c ∈ cs, x = replacement c := by
  induction cs generalizing known with
  | nil =>
    rw [replacements?, Option.some.injEq]
    constructor
    · rintro rfl
      exact ⟨nofun, hknown, fun x => by simp⟩
    · rintro ⟨-, hfound, hmem⟩
      exact hknown.ext hfound fun x => by simp [hmem]
  | cons c cs ih =>
    rw [replacements?]
    by_cases hkind : c.kind = .otherColor
    · rw [if_pos hkind, List.forall_mem_cons, and_iff_right hkind]
      constructor
      · intro h
        obtain ⟨next, hnote, hrest⟩ := Option.bind_eq_some_iff.1 h
        obtain ⟨hnext, hmem⟩ := of_note hknown hnote
        obtain ⟨hkinds, hfound, hall⟩ := (ih hnext).1 hrest
        refine ⟨hkinds, hfound, fun x => ?_⟩
        rw [hall, hmem, List.exists_mem_cons_iff, or_assoc, or_left_comm]
        rfl
      · rintro ⟨hkinds, hfound, hall⟩
        cases hnote : note c.predicted c.expected known with
        | none =>
          -- the color would have two replacements among those that were found
          obtain ⟨other, hne, hother⟩ := exists_mem_of_note hnote
          have hmem : (c.predicted, c.expected) ∈ found :=
            (hall _).2 (.inr ⟨c, List.mem_cons_self, rfl⟩)
          exact absurd (hfound.eq_of_mem ((hall _).2 (.inl hother)) hmem) hne
        | some next =>
          obtain ⟨hnext, hmem⟩ := of_note hknown hnote
          rw [Option.bind_some]
          refine (ih hnext).2 ⟨hkinds, hfound, fun x => ?_⟩
          rw [hall, hmem, List.exists_mem_cons_iff, or_assoc, or_left_comm]
          rfl
    · rw [if_neg hkind]
      refine iff_of_false nofun fun h => ?_
      exact hkind (h.1 c List.mem_cons_self)

/-- The replacements do not depend on the order of the wrong cells. -/
theorem replacements?_perm {cs cs' : List WrongCell} (h : cs.Perm cs') :
    replacements? cs [] = replacements? cs' [] := by
  apply Option.ext
  intro found
  rw [replacements?_eq_some_iff .nil, replacements?_eq_some_iff .nil]
  simp only [h.mem_iff]

/-- The remarks on cells do not depend on the order. -/
theorem ofCells_perm {ds ds' : List (Diff S)} (h : ds.Perm ds') : ofCells ds = ofCells ds' := by
  have hcells : (ds.flatMap Diff.cells).Perm (ds'.flatMap Diff.cells) := h.flatMap_right _
  simp only [ofCells, replacements?_perm hcells, hcells.countP_eq]

/-- The hints do not depend on the order of the comparisons. -/
theorem ofDiffs_perm {ds ds' : List (Diff S)} (h : ds.Perm ds') : ofDiffs ds = ofDiffs ds' := by
  have hfailing := h.filter fun d => !d.exact
  simp only [ofDiffs, hfailing.isEmpty_eq, hfailing.length_eq, h.length_eq, hfailing.all_eq,
    ofShapes_perm hfailing, ofCells_perm hfailing, addedByAll_perm hfailing]

end Hint

/-! ## Scores in exact numbers -/

namespace Diff

/-- A sum does not depend on the order. -/
theorem sum_perm {xs ys : List Rat} (h : xs.Perm ys) : Scalar.sum xs = Scalar.sum ys := by
  rw [Scalar.sum_eq, Scalar.sum_eq, h.sum_eq]

/-- The score of a program does not depend on the order of the comparisons. -/
theorem total_perm {ds ds' : List (Diff Rat)} (h : ds.Perm ds') : total ds = total ds' := by
  rw [total, total, h.isEmpty_eq, h.length_eq, sum_perm (h.map score)]

/-- The mean share of right cells does not depend on the order of the comparisons. -/
theorem meanAccuracy_perm {ds ds' : List (Diff Rat)} (h : ds.Perm ds') :
    meanAccuracy ds = meanAccuracy ds' := by
  rw [meanAccuracy, meanAccuracy, h.isEmpty_eq, h.length_eq, sum_perm (h.map accuracy)]

end Diff

/-! ## Predictions one by one -/

namespace Program

variable {S : Type} [Scalar S] {reg : Registry} {p : Program} {es : List Example}
  {inputs outs : List Grid}

/-- The grid that the program predicts for an input, or else the input. -/
def predicted (reg : Registry) (p : Program) (input : Grid) : Grid :=
  (p.run reg input).toOption.getD input

/-- The comparison for one example, if the program runs on it. -/
def comparison? (reg : Registry) (p : Program) (e : Example) : Option (Diff S) :=
  (p.run reg e.input).toOption.map fun out => Diff.between out e.output

/-- Predictions are the values of one function. -/
theorem Predicts.eq_map (h : p.Predicts reg inputs outs) : outs = inputs.map (p.predicted reg) := by
  induction h with
  | nil => rfl
  | cons hrun _ ih =>
    rw [List.map_cons, predicted, hrun, ← ih]
    rfl

/-- What is computed from examples and their predictions is computed from each example alone. -/
theorem zipWith_predicted {β : Type} (f : Example → Grid → β) (es : List Example) :
    es.zipWith f ((es.map Example.input).map (p.predicted reg)) =
      es.map fun e => f e (p.predicted reg e.input) := by
  rw [List.map_map, List.zipWith_map_right, List.zipWith_self]
  rfl

/-- A verdict has one comparison for each example, in their order. -/
theorem map_some_diffs {strictness : Strictness} {t : Task} {v : Verdict S}
    (h : p.evaluate reg strictness t = .ok v) :
    v.diffs.map some = t.examples.map (p.comparison? reg) := by
  obtain ⟨outs, _, _, _, hpred, -, -, -, rfl⟩ := evaluate_eq_ok_iff.1 h
  show (compare t.examples outs).map some = _
  rw [hpred.eq_map, compare, zipWith_predicted, List.map_map]
  refine List.map_congr_left fun e he => ?_
  obtain ⟨out, -, hrun⟩ := hpred.run_of_mem (List.mem_map_of_mem he)
  rw [Function.comp, predicted, comparison?, hrun]
  rfl

end Program

/-! ## Reordered tasks -/

/-- The verdicts agree on what was found out about the program, its hints included. -/
structure Verdict.Agrees {S : Type} (v v' : Verdict S) : Prop where
  exactAll : v'.exactAll = v.exactAll
  deterministic : v'.deterministic = v.deterministic
  withinPalette : v'.withinPalette = v.withinPalette
  certified : v'.certified = v.certified
  approved : v'.approved = v.approved
  satisfied : v'.satisfied = v.satisfied
  cost : v'.cost = v.cost
  hints : v'.hints = v.hints

namespace Task

/-- The tasks have the same examples, in any order, and the same tests. -/
structure Reordered (t t' : Task) : Prop where
  examples : t'.examples.Perm t.examples
  testInputs : t'.testInputs = t.testInputs

/-- Training pairs in another order are examples in another order. -/
theorem reordered_of_perm {t : Task} {train : List Pair} (h : train.Perm t.train) :
    t.Reordered { t with train := train } :=
  ⟨h.filterMap _, rfl⟩

variable {S : Type} [Scalar S] {t t' : Task} {reg : Registry} {p : Program}
  {strictness : Strictness}

/-- Reordered tasks have the same invariants. -/
theorem Reordered.ofTask_eq (h : t.Reordered t') : Invariants.ofTask t' = Invariants.ofTask t :=
  Invariants.ofExamples_perm h.examples

/-- The tests of reordered tasks find the same. -/
theorem Reordered.testsWithin_eq (h : t.Reordered t') :
    p.testsWithin reg strictness t' = p.testsWithin reg strictness t := by
  rw [Program.testsWithin, Program.testsWithin, h.ofTask_eq, h.testInputs]

/-- A program has predictions for all examples in one order when it has them in another. -/
theorem Reordered.exists_predicts_iff (h : t.Reordered t') :
    (∃ outs, p.Predicts reg (t'.examples.map Example.input) outs) ↔
      ∃ outs, p.Predicts reg (t.examples.map Example.input) outs := by
  rw [Program.exists_predicts_iff, Program.exists_predicts_iff]
  simp only [(h.examples.map Example.input).mem_iff]

/-- Products are in range in one order when they are in another. -/
theorem Reordered.ratiosFit_iff (h : t.Reordered t') : t'.RatiosFit ↔ t.RatiosFit := by
  simp only [RatiosFit, h.examples.mem_iff]

/-- The same tasks, told from the other side. -/
theorem Reordered.symm (h : t.Reordered t') : t'.Reordered t :=
  ⟨h.examples.symm, h.testInputs.symm⟩

/-- A program with a verdict in one order has one in another, or else the check of the ratio there
meets a product out of range. -/
theorem Reordered.exists_evaluate (h : t.Reordered t')
    (hv : ∃ v : Verdict S, p.evaluate reg strictness t = .ok v) :
    (∃ v : Verdict S, p.evaluate reg strictness t' = .ok v) ∨
      ¬ t'.RatiosFit ∧
        (p.evaluate reg strictness t' : Except Fault (Verdict S)) = .error (.breach .ratio) := by
  obtain ⟨v, hv⟩ := hv
  obtain ⟨outs, within, _, cost, hpred, hwithin, -, hcost, -⟩ := Program.evaluate_eq_ok_iff.1 hv
  obtain ⟨outs', hpred'⟩ := h.exists_predicts_iff.2 ⟨outs, hpred⟩
  have heval : (p.evaluate reg strictness t' : Except Fault (Verdict S)) = _ :=
    Program.evaluate_of_predicts hpred'
  rw [h.testsWithin_eq, hwithin, ok_bind] at heval
  cases hsatisfied : (Invariants.ofTask t').satisfied (t'.examples.zip outs') with
  | ok satisfied =>
    rw [hsatisfied, hcost, ok_bind, ok_bind] at heval
    exact .inl ⟨_, heval⟩
  | error fault =>
    refine .inr ⟨fun hfits => hfits.satisfied_ne_error hsatisfied, ?_⟩
    rw [hsatisfied, (Invariants.satisfied_eq_error hsatisfied).1] at heval
    exact heval

/-- In range, an evaluation gives a verdict in one order when it gives one in another. -/
theorem Reordered.exists_evaluate_iff (h : t.Reordered t') (hfits : t.RatiosFit) :
    (∃ v : Verdict S, p.evaluate reg strictness t' = .ok v) ↔
      ∃ v : Verdict S, p.evaluate reg strictness t = .ok v :=
  ⟨fun hv' => (h.symm.exists_evaluate hv').resolve_right fun hover => hover.1 hfits,
    fun hv => (h.exists_evaluate hv).resolve_right fun hover => hover.1 (h.ratiosFit_iff.2 hfits)⟩

/-- The comparisons of reordered tasks are the same, in another order. -/
theorem Reordered.diffs_perm (h : t.Reordered t') {v v' : Verdict S}
    (hv : p.evaluate reg strictness t = .ok v) (hv' : p.evaluate reg strictness t' = .ok v') :
    v'.diffs.Perm v.diffs := by
  obtain ⟨outs, _, _, _, hpred, -, -, -, rfl⟩ := Program.evaluate_eq_ok_iff.1 hv
  obtain ⟨outs', _, _, _, hpred', -, -, -, rfl⟩ := Program.evaluate_eq_ok_iff.1 hv'
  show (Program.compare _ _).Perm (Program.compare _ _)
  rw [hpred.eq_map, hpred'.eq_map, Program.compare, Program.compare, Program.zipWith_predicted,
    Program.zipWith_predicted]
  exact h.examples.map _

/-- The verdicts on reordered tasks agree. -/
theorem Reordered.agrees (h : t.Reordered t') {v v' : Verdict S}
    (hv : p.evaluate reg strictness t = .ok v) (hv' : p.evaluate reg strictness t' = .ok v') :
    v.Agrees v' := by
  have hdiffs := h.diffs_perm hv hv'
  obtain ⟨outs, within, satisfied, cost, hpred, hwithin, hsatisfied, hcost, rfl⟩ :=
    Program.evaluate_eq_ok_iff.1 hv
  obtain ⟨outs', within', satisfied', cost', hpred', hwithin', hsatisfied', hcost', rfl⟩ :=
    Program.evaluate_eq_ok_iff.1 hv'
  rw [h.testsWithin_eq, hwithin, Except.ok.injEq] at hwithin'
  rw [hcost, Except.ok.injEq] at hcost'
  subst hwithin' hcost'
  have hpairs : (t'.examples.zip outs').Perm (t.examples.zip outs) := by
    rw [hpred.eq_map, hpred'.eq_map, List.zip_eq_zipWith, List.zip_eq_zipWith,
      Program.zipWith_predicted, Program.zipWith_predicted]
    exact h.examples.map _
  have houts : outs'.Perm outs := by
    rw [hpred.eq_map, hpred'.eq_map]
    exact (h.examples.map _).map _
  have hkept : satisfied' = satisfied := by
    rw [Invariants.satisfied_eq_ok hsatisfied, Invariants.satisfied_eq_ok hsatisfied', h.ofTask_eq]
    simp only [hpairs.all_eq]
  simp only [Program.judge] at hdiffs ⊢
  constructor <;>
    simp only [h.ofTask_eq, hdiffs.isEmpty_eq, hdiffs.all_eq, houts.isEmpty_eq, houts.all_eq,
      hkept, Hint.ofDiffs_perm hdiffs]

end Task

namespace Program

variable {S : Type} [Scalar S]

/-- Without tests, the identity gets a verdict when the inputs, as predictions, can be checked. -/
theorem exists_evaluate_identity_iff {strictness : Strictness} {t : Task} (htest : t.test = []) :
    (∃ v : Verdict S, identity.evaluate .standard strictness t = .ok v) ↔ ∃ satisfied,
      (Invariants.ofTask t).satisfied (t.examples.zip (t.examples.map Example.input)) =
        .ok satisfied := by
  have hpred : identity.Predicts .standard (t.examples.map Example.input)
      (t.examples.map Example.input) := List.forall₂_same.2 fun _ _ => rfl
  obtain ⟨within, hwithin⟩ : ∃ within, identity.testsWithin .standard strictness t = .ok within := by
    refine exists_testsWithin_iff.2 fun _ q hq => ?_
    rw [htest] at hq
    cases hq
  have hcost : identity.cost .standard = .ok 0 := rfl
  rw [evaluate_of_predicts hpred, hwithin, hcost]
  simp only [ok_bind, bind_eq_ok, pure_eq_ok]
  constructor
  · rintro ⟨-, satisfied, hsatisfied, rfl⟩
    exact ⟨satisfied, hsatisfied⟩
  · rintro ⟨satisfied, hsatisfied⟩
    exact ⟨_, satisfied, hsatisfied, rfl⟩

/-- The identity keeps all rows, so on towers the check of the ratio stops at the first one, and the
identity gets a verdict when that one is in range. -/
theorem exists_evaluate_towers_iff {strictness : Strictness} {rows k : Nat} {blocks : List Nat}
    (hblocks : ∀ n ∈ k :: blocks, 0 < n) :
    (∃ v : Verdict S, identity.evaluate .standard strictness (.towers rows (k :: blocks)) = .ok v) ↔
      (rows + 1) * k * rows ≤ maxCount := by
  have hpos : 0 < k := hblocks k List.mem_cons_self
  have hne : k :: blocks ≠ [] := List.cons_ne_nil k blocks
  have hratio : (Invariants.ofTask (.towers rows (k :: blocks))).exhibits .ratio = true := by
    rw [Invariants.exhibits, Invariants.ratio?_towers hne hblocks, Option.isSome_some]
  have hmem : ⟨.full ((rows + 1) * k) 1 0, .full (rows * k) 1 0⟩ ∈
      (Task.towers rows (k :: blocks)).examples := by
    rw [Task.examples_towers]
    exact List.mem_cons_self
  -- the prediction has more rows than the output
  have hshape : (Grid.full (rows * k) 1 0).shape ≠ (Grid.full ((rows + 1) * k) 1 0).shape := by
    intro h
    have hrows : rows * k = (rows + 1) * k := congrArg Shape.height h
    rw [Nat.succ_mul] at hrows
    omega
  have hholds := Invariants.holds_ratio hmem
    (Grid.valid_full (Nat.mul_pos (Nat.succ_pos rows) hpos) Nat.one_pos (Nat.zero_le _)) hratio
    (.full ((rows + 1) * k) 1 0)
  rw [decide_eq_false hshape, ← Invariants.ofTask] at hholds
  rw [exists_evaluate_identity_iff rfl, Invariants.exists_satisfied_iff, forall_prop_of_true hratio,
    Task.examples_towers, List.map_cons, List.map_cons, List.zip_cons_cons,
    Invariants.holdsThroughout, hholds]
  by_cases hfits : (rows + 1) * k * rows ≤ maxCount
  · rw [if_pos ((Invariants.fits_towers_iff hne hblocks).2 hfits)]
    exact iff_of_true ⟨false, rfl⟩ hfits
  · rw [if_neg fun h => hfits ((Invariants.fits_towers_iff hne hblocks).1 h)]
    refine iff_of_false ?_ hfits
    rintro ⟨_, ⟨⟩⟩

/-- **The order of the training pairs does not matter.**  With the training pairs in another order,
a task has the same invariants.  While products stay in range, a program gets a verdict on it when it
gets one on the task; if it gets a verdict on only one of them, the check of the ratio ends in a breach
on the other.  Two verdicts agree in all findings and in the hints, and, in exact numbers, in the score
and the mean share of right cells; each lists the comparisons in the order of its own examples. -/
theorem evaluate_reordered (reg : Registry) (strictness : Strictness) (p : Program) (t : Task)
    {train : List Pair} (h : train.Perm t.train) :
    Invariants.ofTask { t with train := train } = Invariants.ofTask t ∧
    (t.RatiosFit →
      ((∃ v : Verdict S, p.evaluate reg strictness { t with train := train } = .ok v) ↔
        ∃ v : Verdict S, p.evaluate reg strictness t = .ok v)) ∧
    ((∃ v : Verdict S, p.evaluate reg strictness t = .ok v) →
      (∃ v : Verdict S, p.evaluate reg strictness { t with train := train } = .ok v) ∨
      (p.evaluate reg strictness { t with train := train } : Except Fault (Verdict S)) =
        .error (.breach .ratio)) ∧
    ((∃ v : Verdict S, p.evaluate reg strictness { t with train := train } = .ok v) →
      (∃ v : Verdict S, p.evaluate reg strictness t = .ok v) ∨
      (p.evaluate reg strictness t : Except Fault (Verdict S)) = .error (.breach .ratio)) ∧
    (∀ v v' : Verdict S, p.evaluate reg strictness t = .ok v →
      p.evaluate reg strictness { t with train := train } = .ok v' →
      v.Agrees v' ∧ v.diffs.map some = t.examples.map (p.comparison? reg) ∧
      v'.diffs.map some = (train.filterMap Pair.example?).map (p.comparison? reg) ∧
      v'.diffs.Perm v.diffs) ∧
    ∀ v v' : Verdict Rat, p.evaluate reg strictness t = .ok v →
      p.evaluate reg strictness { t with train := train } = .ok v' →
      v'.score = v.score ∧ v'.meanAccuracy = v.meanAccuracy := by
  have hreordered := Task.reordered_of_perm h
  refine ⟨hreordered.ofTask_eq, hreordered.exists_evaluate_iff,
    fun hv => (hreordered.exists_evaluate hv).imp_right And.right,
    fun hv' => (hreordered.symm.exists_evaluate hv').imp_right And.right,
    fun v v' hv hv' => ?_, fun v v' hv hv' => ?_⟩
  · exact ⟨hreordered.agrees hv hv', map_some_diffs hv, map_some_diffs hv',
      hreordered.diffs_perm hv hv'⟩
  · have hdiffs := hreordered.diffs_perm hv hv'
    obtain ⟨outs, _, _, _, -, -, -, -, rfl⟩ := evaluate_eq_ok_iff.1 hv
    obtain ⟨outs', _, _, _, -, -, -, -, rfl⟩ := evaluate_eq_ok_iff.1 hv'
    exact ⟨Diff.total_perm hdiffs, Diff.meanAccuracy_perm hdiffs⟩

/-- A reflection solves the first example of the turning task.  With the training pairs reversed it
solves the last one, and the verdicts agree, with the same hint. -/
theorem evaluate_reordered_quarterTurn :
    ∃ v v' : Verdict Rat,
      (apply "reflect_h" []).evaluate .standard .standard .quarterTurn = .ok v ∧
      (apply "reflect_h" []).evaluate .standard .standard
        { Task.quarterTurn with train := Task.quarterTurn.train.reverse } = .ok v' ∧
      v.diffs.map Diff.exact = [true, false] ∧ v'.diffs.map Diff.exact = [false, true] ∧
      v.hints = [.someSolved 1 2] ∧ v'.hints = v.hints ∧ v'.score = v.score := by
  have hrun : ((apply "reflect_h" []).evaluate .standard .standard .quarterTurn :
      Except Fault (Verdict Rat)).toOption.map (fun v => (v.diffs.map Diff.exact, v.hints)) =
      some ([true, false], [.someSolved 1 2]) := by decide +kernel
  obtain ⟨v, hv, hfound⟩ := exists_ok_of_map hrun
  obtain ⟨hexact, hhints⟩ := Prod.mk.inj hfound
  obtain ⟨-, hiff, -, -, hagrees, hscores⟩ := evaluate_reordered (S := Rat) .standard .standard
    (apply "reflect_h" []) .quarterTurn (List.reverse_perm Task.quarterTurn.train)
  obtain ⟨v', hv'⟩ := (hiff (by decide)).2 ⟨v, hv⟩
  have hexact' : ((apply "reflect_h" []).evaluate .standard .standard
      { Task.quarterTurn with train := Task.quarterTurn.train.reverse } :
      Except Fault (Verdict Rat)).toOption.map (fun v => v.diffs.map Diff.exact) =
      some [false, true] := by decide +kernel
  rw [hv'] at hexact'
  exact ⟨v, v', hv, hv', hexact, Option.some.inj hexact', hhints, (hagrees v v' hv hv').1.hints,
    (hscores v v' hv hv').1⟩

/-- A program can get a verdict in one order and none in another.  The smaller of two towers is in
range, and the larger one is not. -/
theorem not_evaluate_reordered_towers : ¬ ∀ (p : Program) (t : Task) (train : List Pair),
    (∀ q ∈ t.train, q.input.Valid ∧ ∀ out ∈ q.output?, out.Valid) → train.Perm t.train →
    ((∃ v : Verdict Rat, p.evaluate .standard .standard { t with train := train } = .ok v) ↔
      ∃ v : Verdict Rat, p.evaluate .standard .standard t = .ok v) := by
  intro h
  have hreordered : (∃ v : Verdict Rat,
      identity.evaluate .standard .standard (.towers (2 ^ 32 - 1) [2, 1]) = .ok v) ↔
        ∃ v : Verdict Rat,
          identity.evaluate .standard .standard (.towers (2 ^ 32 - 1) [1, 2]) = .ok v :=
    h identity (.towers (2 ^ 32 - 1) [1, 2]) (Task.towers (2 ^ 32 - 1) [2, 1]).train
      (Task.valid_towers (by decide) (by decide)) (.map _ (.swap 1 2 []))
  rw [exists_evaluate_towers_iff (by decide), exists_evaluate_towers_iff (by decide)] at hreordered
  exact absurd (hreordered.2 (by decide)) (by decide)

end Program

end GridRepair
