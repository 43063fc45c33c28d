/-
# Hints and the repairs they name

A `Remedy` is a step that replaces one color by another or scales by a factor, together with the
hint that suggests it.  Where such a step completes a program, the failing examples all look alike,
and the hint says so:

* `Hint.recolor_mem_ofDiffs` : all wrong cells of failing examples show one color for another one;
* `Hint.scaled_mem_ofDiffs` : all failing examples ask for the same multiple of the shape.

The search then inserts the step at once (`hint_leads_to_repair`).  No candidate of its round costs more
than two beyond the program (`Search.exists_round_of_room`): members of a group cost nearly the same, and
the one offered step that costs three comes with a hint that remedies exclude
(`Remedy.shrink_notMem`).
-/
import GridRepair.Repair
import GridRepair.Proofs.Appending
import GridRepair.Proofs.Copies
import GridRepair.Proofs.Costs
import GridRepair.Proofs.Miscalls
import GridRepair.Proofs.Remarks

namespace GridRepair

/-! ## Steps of the catalogue -/

namespace Program

/-- The step that replaces one color by another does so. -/
theorem run_recolor {a b : Color} (ha : a ≤ maxColor) (hb : b ≤ maxColor) (g : Grid) :
    (apply "recolor" [.int a, .int b]).run .standard g = .ok (g.recolor a b) := by
  have hcall : (apply "recolor" [.int a, .int b]).eval .standard g =
      (do
        let source ← Grid.color? a
        let target ← Grid.color? b
        pure (g.recolor source target) : Except Fault Grid).map .grid := rfl
  rw [run_eq_ok_iff, hcall, Grid.color?_of_le ha, Grid.color?_of_le hb]
  rfl

/-- The step that scales by a factor does so. -/
theorem run_scale_eq_ok_iff {k : Nat} {g out : Grid} :
    (apply "scale" [.int k]).run .standard g = .ok out ↔ g.scale k = .ok out := by
  have hcall : (apply "scale" [.int k]).eval .standard g = (g.scale k).map .grid := rfl
  rw [run_eq_ok_iff, hcall, map_eq_ok]
  simp

end Program

/-! ## Reading hints off failing comparisons -/

namespace Hint

variable {S : Type} {ds : List (Diff S)}

/-! ### Scaling -/

/-- The scaling is suggested when all failing comparisons ask for its factor. -/
theorem scaled_mem_ofDiffs {k : Nat} (hne : failing ds ≠ [])
    (h : ∀ d ∈ failing ds, d.sameShape = false ∧ factor? d = some k) :
    .scaled k ∈ ofDiffs ds := by
  have huniform := uniformFactor?_eq_some_iff.2 ⟨hne, fun d hd => (h d hd).2⟩
  exact scaled_mem_iff.2 ⟨hne, fun d hd => (h d hd).1, huniform⟩

/-- A grid that is to be scaled asks for the factor. -/
theorem factor?_between_of_scale [Scalar S] {k : Nat} (hk : 2 ≤ k) {g out : Grid}
    (hscale : g.scale k = .ok out) (hout : out.Valid) :
    (Diff.between g out : Diff S).sameShape = false ∧
      factor? (Diff.between g out : Diff S) = some k := by
  obtain ⟨-, -, rfl⟩ := Grid.scale_eq_ok_iff.1 hscale
  obtain ⟨hheight, hwidth, -⟩ := hout
  have hh : 0 < g.height := Nat.pos_of_mul_pos_right hheight
  have hw : 0 < g.width := Nat.pos_of_mul_pos_right hwidth
  have hrows : (g.blowUp k).height = k * g.height := Nat.mul_comm g.height k
  have hcols : (g.blowUp k).width = k * g.width := Nat.mul_comm g.width k
  exact ⟨not_sameShape_of_scaled hh hk hrows, (factor?_between_iff hh hw).2 ⟨hk, hrows, hcols⟩⟩

/-! ### Recoloring -/

/-- There are wrong cells, and all of them show the first color where the second one is expected;
both are content. -/
structure Miscolors (a b : Color) (d : Diff S) : Prop where
  sameShape : d.sameShape = true
  nonempty : d.cells ≠ []
  cells : ∀ c ∈ d.cells, c.kind = .otherColor ∧ c.predicted = a ∧ c.expected = b

/-- Wrong cells that all ask for one replacement lead to one remark. -/
theorem ofCells_of_miscolors {a b : Color} (hne : ds ≠ []) (h : ∀ d ∈ ds, Miscolors a b d) :
    ofCells ds = [.recolor a b] := by
  have hcells : ∀ c ∈ ds.flatMap Diff.cells,
      c.kind = .otherColor ∧ c.predicted = a ∧ c.expected = b := by
    intro c hc
    obtain ⟨d, hd, hc⟩ := List.mem_flatMap.1 hc
    exact (h d hd).cells c hc
  have hreplacements : replacements? (ds.flatMap Diff.cells) [] = some [(a, b)] := by
    refine (replacements?_eq_some_iff .nil).2
      ⟨fun c hc => (hcells c hc).1, List.pairwise_singleton _ _, fun x => ?_⟩
    have hall : ∀ c ∈ ds.flatMap Diff.cells, replacement c = (a, b) := by
      intro c hc
      rw [replacement, (hcells c hc).2.1, (hcells c hc).2.2]
    constructor
    · intro hx
      obtain ⟨d, hd⟩ := List.exists_mem_of_ne_nil _ hne
      obtain ⟨c, hc⟩ := List.exists_mem_of_ne_nil _ (h d hd).nonempty
      have hmem : c ∈ ds.flatMap Diff.cells := List.mem_flatMap.2 ⟨d, hd, hc⟩
      exact .inr ⟨c, hmem, (List.mem_singleton.1 hx).trans (hall c hmem).symm⟩
    · rintro (hx | ⟨c, hc, rfl⟩)
      · cases hx
      · exact List.mem_singleton.2 (hall c hc)
  simp only [ofCells, hreplacements, List.map_cons, List.map_nil]

/-- The recoloring is suggested when all wrong cells of failing comparisons ask for it. -/
theorem recolor_mem_ofDiffs {a b : Color} (hne : failing ds ≠ [])
    (h : ∀ d ∈ failing ds, Miscolors a b d) : .recolor a b ∈ ofDiffs ds := by
  refine mem_ofDiffs_iff.2 ⟨hne, .inr (.inr (.inl ⟨fun d hd => (h d hd).sameShape, ?_⟩))⟩
  rw [ofCells_of_miscolors hne h]
  exact List.mem_singleton_self _

/-- A grid that is to be recolored shows one color for another one. -/
theorem miscolors_between_recolor [Scalar S] {a b : Color} (ha : a ≠ background)
    (hb : b ≠ background) {g : Grid} (hne : g ≠ g.recolor a b) :
    Miscolors a b (Diff.between g (g.recolor a b) : Diff S) := by
  have hshape : g.shape = (g.recolor a b).shape := rfl
  refine ⟨(Diff.sameShape_between_iff _ _).2 hshape, ?_, fun c hc => ?_⟩
  · rw [Diff.cells_between hshape]
    exact mt (Diff.wrongCells_eq_nil_iff hshape).1 hne
  · rw [Diff.cells_between hshape] at hc
    obtain ⟨hpredicted, hexpected, hdiffer, hkind⟩ := Diff.mem_wrongCells_iff.1 hc
    rw [Grid.recolor, Grid.get?_map, hpredicted, Option.map_some, Option.some.injEq] at hexpected
    -- only cells of the first color change
    by_cases hcolor : c.predicted = a
    · rw [if_pos hcolor] at hexpected
      refine ⟨?_, hcolor, hexpected.symm⟩
      rw [hkind, hcolor, ← hexpected, Mismatch.of, if_neg ha, if_neg hb]
    · rw [if_neg hcolor] at hexpected
      exact absurd hexpected hdiffer

end Hint

/-! ## Remedies -/

/-- A step that may complete a program, and the hint that suggests it. -/
inductive Remedy : Program → Hint → Prop where
  /-- replace a color by another one, neither of which is the background -/
  | recolor {a b : Color} (ha : 1 ≤ a ∧ a ≤ maxColor) (hb : 1 ≤ b ∧ b ≤ maxColor) (hne : a ≠ b) :
    Remedy (.apply "recolor" [.int a, .int b]) (.recolor a b)
  /-- scale by a factor -/
  | scale {k : Nat} (hk : 2 ≤ k) : Remedy (.apply "scale" [.int k]) (.scaled k)

namespace Remedy

variable {step : Program} {hint : Hint}

/-- Remedies can be called. -/
theorem contains (h : Remedy step hint) :
    Registry.standard.contains (step.name?.getD "") = true := by
  cases h <;> rfl

/-- A remedy costs two. -/
theorem cost_eq (h : Remedy step hint) : step.cost .standard = .ok 2 := by
  cases h <;> rfl

/-- The hint suggests the remedy where that can be used. -/
theorem steps_eq (h : Remedy step hint) {g out : Grid}
    (hrun : step.run .standard g = .ok out) (hout : out.Valid) : hint.steps = [step] := by
  cases h with
  | recolor => rfl
  | @scale k hk =>
    rw [Program.run_scale_eq_ok_iff, Grid.scale_eq_ok_iff] at hrun
    obtain ⟨-, ⟨hside, -⟩, rfl⟩ := hrun
    have hheight : 0 < g.height := Nat.pos_of_mul_pos_right hout.1
    have hk' : k ≤ g.height * k := Nat.le_mul_of_pos_left k hheight
    have hsmall : (k : Int) ≤ maxInt := by
      rw [maxSide] at hside
      rw [maxInt]
      omega
    rw [Hint.steps, Hint.scaleStep, wrapCount_of_le hsmall]

/-- Where a remedy is suggested, no crop is. -/
theorem shrink_notMem {S : Type} {ds : List (Diff S)} (h : Remedy step hint)
    (hmem : hint ∈ Hint.ofDiffs ds) : .shrink ∉ Hint.ofDiffs ds := by
  intro hshrink
  have hcells : Hint.shrink ∉ Hint.ofCells (Hint.failing ds) := Hint.not_mem_ofCells rfl
  simp only [Hint.mem_ofDiffs_iff, hcells, reduceCtorEq, and_false, false_or, or_false] at hshrink
  obtain ⟨hne, hnone, hshapes⟩ := hshrink
  cases h with
  | @recolor a b =>
    have hother : Hint.recolor a b ≠ Hint.ofShapes (Hint.failing ds) := Hint.ne_ofShapes rfl
    simp only [Hint.mem_ofDiffs_iff, hother, reduceCtorEq, and_false, false_or, or_false] at hmem
    exact Hint.not_forall_sameShape hne hnone hmem.2.1
  | scale hk =>
    rw [Hint.ofShapes_eq_scaled_iff.2 (Hint.scaled_mem_iff.1 hmem).2.2] at hshapes
    cases hshapes

variable {S : Type} [Scalar S] {p : Program} {t : Task} {outs : List Grid}

/-- The hint is given when the remedy completes a program that fails on an example. -/
theorem mem_ofDiffs (h : Remedy step hint) (hvalid : ∀ e ∈ t.examples, e.output.Valid)
    (hpred : p.Predicts .standard (t.examples.map Example.input) outs)
    (hunsolved : ¬ p.Solves .standard t) (hcompleted : p.CompletedBy .standard step t) :
    hint ∈ Hint.ofDiffs (Program.compare t.examples outs : List (Diff S)) := by
  -- a failing comparison belongs to an example where the remedy makes a difference
  have hfailing : ∀ d ∈ Hint.failing (Program.compare t.examples outs : List (Diff S)),
      ∃ g out, step.run .standard g = .ok out ∧ out.Valid ∧ g ≠ out ∧ d = Diff.between g out := by
    intro d hd
    obtain ⟨hmem, hinexact⟩ := Hint.mem_failing.1 hd
    obtain ⟨e, he, g, hrun, rfl⟩ := (Program.mem_compare_iff hpred).1 hmem
    obtain ⟨g', hrun', hstep⟩ := hcompleted e he
    rw [hrun, Except.ok.injEq] at hrun'
    subst hrun'
    refine ⟨g, e.output, hstep, hvalid e he, fun heq => ?_, rfl⟩
    rw [(Diff.exact_between_iff g e.output).2 heq] at hinexact
    cases hinexact
  have hne : Hint.failing (Program.compare t.examples outs : List (Diff S)) ≠ [] := by
    obtain ⟨e, he, hwrong⟩ := Program.not_solves_iff.1 hunsolved
    obtain ⟨g, hrun, -⟩ := hcompleted e he
    have hmem : (Diff.between g e.output : Diff S) ∈ Program.compare t.examples outs :=
      (Program.mem_compare_iff hpred).2 ⟨e, he, g, hrun, rfl⟩
    refine List.ne_nil_of_mem (Hint.mem_failing.2 ⟨hmem, ?_⟩)
    rw [← Bool.not_eq_true, Diff.exact_between_iff]
    rintro rfl
    exact hwrong hrun
  cases h with
  | @recolor a b ha hb =>
    refine Hint.recolor_mem_ofDiffs hne fun d hd => ?_
    obtain ⟨g, out, hstep, -, hdiffer, rfl⟩ := hfailing d hd
    rw [Program.run_recolor ha.2 hb.2, Except.ok.injEq] at hstep
    subst hstep
    exact Hint.miscolors_between_recolor (Nat.ne_of_gt ha.1) (Nat.ne_of_gt hb.1) hdiffer
  | scale hk =>
    refine Hint.scaled_mem_ofDiffs hne fun d hd => ?_
    obtain ⟨g, out, hstep, hout, -, rfl⟩ := hfailing d hd
    exact Hint.factor?_between_of_scale hk (Program.run_scale_eq_ok_iff.1 hstep) hout

end Remedy

/-! ## The cost of candidates -/

namespace Search

variable {effort : Effort} {p : Program} {t : Task} {hints : List Hint}

/-- A recoloring costs two. -/
theorem totalCost_recolorStep (source target : Color) :
    (Hint.recolorStep source target).totalCost .standard = 2 := rfl

/-- A scaling costs two. -/
theorem totalCost_scaleStep (factor : Nat) : (Hint.scaleStep factor).totalCost .standard = 2 := rfl

/-- The offered steps cost at most two, when no hint suggests a crop. -/
theorem totalCost_le_of_mem_insertions (hshrink : .shrink ∉ hints) {step : Program}
    (h : step ∈ insertions .standard effort t hints) : step.totalCost .standard ≤ 2 := by
  rcases (mem_insertions_iff.1 h).1 with ⟨-, hint, hhint, hstep⟩ | ⟨factor, -, -, rfl⟩ | hlibrary
  · cases hint with
    | recolor source target =>
      rw [List.mem_singleton.1 hstep, totalCost_recolorStep]
    | scaled factor =>
      rw [List.mem_singleton.1 hstep, totalCost_scaleStep]
    | shrink => exact absurd hhint hshrink
    | reshape =>
      have hall : ∀ s ∈ Hint.reshape.steps, s.totalCost .standard ≤ 2 := by decide +kernel
      exact hall step hstep
    | addsColors colors =>
      obtain ⟨c, -, rfl⟩ := List.mem_map.1 hstep
      rw [totalCost_recolorStep]
    | mostlySurplus => cases hstep
    | mostlyLacking => cases hstep
    | someSolved solved total => cases hstep
  · rw [totalCost_scaleStep]
  · have hall : ∀ s ∈ Proposal.library, s.totalCost .standard ≤ 2 := by decide +kernel
    exact hall step hlibrary

/-- A substitute costs at most two more than the primitive it stands for. -/
theorem surcharge_le_of_mem_swapsOf {location : Path} {node : Program} {edit : Edit}
    (h : edit ∈ Proposal.swapsOf .standard location node) : edit.surcharge .standard ≤ 2 := by
  have hgroups : ∀ names ∈ Proposal.groups, ∀ name ∈ names, ∀ other ∈ names,
      Registry.standard.price other - Registry.standard.price name ≤ 2 := by decide +kernel
  cases node with
  | call name args =>
    obtain ⟨other, hother, rfl⟩ := List.mem_map.1 h
    have hmem := (List.mem_filter.1 hother).1
    cases hgroup : Proposal.groups.find? fun names => names.contains name with
    | none =>
      rw [hgroup] at hmem
      cases hmem
    | some names =>
      rw [hgroup] at hmem
      have hname : names.contains name = true :=
        List.find?_some (p := fun names : List String => names.contains name) hgroup
      exact hgroups names (List.mem_of_find?_eq_some hgroup) name
        (List.contains_iff_mem.1 hname) other hmem
  | compose others => cases h
  | literal v => cases h

/-- Proposed edits add at most two to the cost of a program, when the offered steps cost no more. -/
theorem surcharge_le_of_mem_edits {steps : List Program} {family : Edit.Family} {edit : Edit}
    (hsteps : ∀ step ∈ steps, step.totalCost .standard ≤ 2)
    (h : edit ∈ Proposal.edits .standard steps p family) : edit.surcharge .standard ≤ 2 := by
  obtain ⟨⟨location, node⟩, -, hedit⟩ := List.mem_flatMap.1 h
  cases family with
  | swap => exact surcharge_le_of_mem_swapsOf hedit
  | tweak =>
    cases node with
    | call name args =>
      change edit ∈ Proposal.tweaksAt .standard location (.call name args) at hedit
      rw [Proposal.tweaksAt] at hedit
      split at hedit
      · obtain ⟨i, old?, current, new, param, rfl, -⟩ := Proposal.exists_of_mem_tweaksOf hedit
        exact Nat.zero_le 2
      · cases hedit
    | compose others => cases hedit
    | literal v => cases hedit
  | insert =>
    obtain ⟨index, step, rfl, -, hstep⟩ := Proposal.mem_insertionsAt_iff.1 hedit
    exact hsteps step hstep
  | remove =>
    obtain ⟨index, others, rfl, -⟩ := Proposal.mem_removalsAt_iff.1 hedit
    exact Nat.zero_le 2
  | reorder =>
    obtain ⟨index, others, first, second, rfl, -⟩ := Proposal.mem_exchangesAt_iff.1 hedit
    exact Nat.zero_le 2

/-- A typed program with room for two more in the range of costs has a first round, when no hint
suggests a crop. -/
theorem exists_round_of_room {S : Type} [Scalar S] {score : S} (hp : p.WellTyped .standard)
    (hroom : p.totalCost .standard + 2 ≤ maxCost) (hshrink : .shrink ∉ hints) :
    ∃ r, round (setting .standard (Program.score .standard) effort t hints) (start p score) =
      .ok r := by
  refine exists_round_iff.2 fun c hc => ?_
  have htyped : c.program.WellTyped .standard :=
    wellTyped_of_mem_batch (fun _ => wellTyped_of_mem_insertions) hp hc
  obtain ⟨hall, -⟩ := mem_of_mem_fresh (List.mem_of_mem_take hc)
  obtain ⟨family, -, hedit, happly⟩ := Proposal.mem_all_iff.1 hall
  have hsurcharge := surcharge_le_of_mem_edits
    (fun _ => totalCost_le_of_mem_insertions hshrink) hedit
  have hcost := Edit.totalCost_le_of_apply .standard happly
  exact not_breaks_of_wellTyped htyped (hcost.trans ((Nat.add_le_add_left hsurcharge _).trans hroom))

end Search

/-- **Hints lead to the repair they name.**  Let a program, other than a literal, run on all of at
most `10 ^ 9` examples with valid outputs and miss the output of one of them, and let a remedy
complete it.  Then the verdict on the program has the hint that suggests the remedy and no other
step.  A search from the program that uses hints and may try all candidates of its first round finds
a program of the best score, in one round and by one edit; only a program whose cost leaves no room
for the remedy within the range of costs is excepted. -/
theorem hint_leads_to_repair {step : Program} {hint : Hint} {p : Program} {t : Task}
    {strictness : Strictness} {v : Verdict Rat} (hremedy : Remedy step hint)
    (hp : ∀ w, p ≠ .literal w) (hvalid : ∀ e ∈ t.examples, e.output.Valid)
    (hmany : t.examples.length ≤ 10 ^ 9) (hv : p.evaluate .standard strictness t = .ok v)
    (hunsolved : ¬ p.Solves .standard t) (hcompleted : p.CompletedBy .standard step t) :
    hint ∈ v.hints ∧ hint.steps = [step] ∧
      (v.cost + 2 ≤ maxCost → ∀ effort : Effort, effort.useHints = true → 1 ≤ effort.maxRounds →
        (Search.offers (Search.setting .standard (Program.score .standard) effort t v.hints)
          (Search.start p v.score)).length ≤ effort.maxCandidates →
        ∃ r, searchFrom .standard effort p t v = .ok r ∧ r.FoundAtOnce .standard t) := by
  obtain ⟨outs, within, satisfied, cost, hpred, -, -, -, hjudge⟩ := Program.evaluate_eq_ok_iff.1 hv
  obtain ⟨hscore, hcost⟩ := Program.score_of_evaluate hv
  have hhint : hint ∈ v.hints := by
    rw [← hjudge]
    exact hremedy.mem_ofDiffs hvalid hpred hunsolved hcompleted
  have hsteps : hint.steps = [step] := by
    obtain ⟨e, he, -⟩ := Program.not_solves_iff.1 hunsolved
    obtain ⟨g, -, hstep⟩ := hcompleted e he
    exact hremedy.steps_eq hstep (hvalid e he)
  refine ⟨hhint, hsteps, fun hmax effort huse hrounds hcap => ?_⟩
  have hoffered : step ∈ Search.insertions .standard effort t v.hints :=
    Search.mem_insertions_iff.2
      ⟨.inl ⟨huse, hint, hhint, hsteps ▸ List.mem_singleton_self step⟩, hremedy.contains⟩
  have htyped : p.WellTyped .standard := by
    obtain ⟨e, he, -⟩ := Program.not_solves_iff.1 hunsolved
    obtain ⟨g, hrun, -⟩ := hcompleted e he
    exact Program.wellTyped_of_eval p _ _ (Program.run_eq_ok_iff.1 hrun)
  have htotal : p.totalCost .standard = v.cost := by
    have hpaid := Program.cost_of_registered Registry.priced_standard
      (Registry.missing?_eq_none_iff.2 htyped.contains)
    rw [hcost] at hpaid
    split at hpaid
    · exact (Except.ok.inj hpaid).symm
    · cases hpaid
  have hshrink : .shrink ∉ v.hints := by
    rw [← hjudge] at hhint ⊢
    exact hremedy.shrink_notMem hhint
  exact Search.refine_foundAtOnce hp hscore hcost hmany hunsolved hoffered hcompleted.solves
    (Program.cost_followedBy hcost hremedy.cost_eq hmax) hrounds hcap
    (Search.exists_round_of_room htyped (htotal ▸ hmax) hshrink)

/-- A task of which transposing solves one example, and recoloring after it the other one too. -/
def Task.recoloredTurn : Task where
  name := "recolored turn"
  train :=
    [⟨⟨2, 2, #[1, 0, 3, 1], rfl⟩, some ⟨2, 2, #[2, 3, 0, 2], rfl⟩⟩,
      ⟨⟨3, 1, #[0, 5, 5], rfl⟩, none⟩,
      ⟨⟨1, 2, #[0, 4], rfl⟩, some ⟨2, 1, #[0, 4], rfl⟩⟩]
  test := []

/-- The recoloring that transposing lacks is suggested, and then found at once. -/
theorem hint_leads_to_repair_recoloredTurn :
    ∃ v : Verdict Rat,
      (Program.call "transpose" []).evaluate .standard .standard .recoloredTurn = .ok v ∧
        .recolor 1 2 ∈ v.hints ∧
        ∃ r, searchFrom .standard ⟨3, true, true, 30⟩ (.call "transpose" []) .recoloredTurn v = .ok r ∧
          r.FoundAtOnce .standard .recoloredTurn := by
  obtain ⟨v, hv, hroom⟩ : ∃ v : Verdict Rat,
      (Program.call "transpose" []).evaluate .standard .standard .recoloredTurn = .ok v ∧
        decide (v.cost + 2 ≤ maxCost ∧
          (Search.offers (Search.setting .standard (Program.score .standard) ⟨3, true, true, 30⟩
            .recoloredTurn v.hints) (Search.start (.call "transpose" []) v.score)).length ≤ 30) =
          true := exists_ok_of_map (by decide +kernel)
  obtain ⟨hmax, hcap⟩ := of_decide_eq_true hroom
  have hvalid : ∀ e ∈ Task.recoloredTurn.examples, e.output.Valid := by decide +kernel
  have hunsolved : ¬ (Program.call "transpose" []).Solves .standard .recoloredTurn :=
    Program.not_solves_iff.2 (by decide +kernel)
  have hcompleted : (Program.call "transpose" []).CompletedBy .standard
      (.apply "recolor" [.int (1 : Nat), .int (2 : Nat)]) .recoloredTurn := by
    intro e he
    refine bind_eq_ok.1 ?_
    revert e
    decide +kernel
  obtain ⟨hhint, -, hsearch⟩ := hint_leads_to_repair (.recolor (by decide) (by decide) (by decide))
    (fun _ => Program.noConfusion) hvalid (by decide) hv hunsolved hcompleted
  exact ⟨v, hv, hhint, hsearch hmax _ rfl (by decide) hcap⟩

end GridRepair
