/-
# What hints say

The hints for pairs of a prediction and an expected grid state facts about all pairs that differ,
and where such a fact holds, there is the hint (`Hint.hints_state_facts`).

The list of hints has three parts: on solved examples, on shapes or on cells, and on added colors
(`Hint.ofDiffs_eq`, `Hint.mem_ofDiffs_iff`).  What the comparisons say in each part is then put in
terms of the grids:

* `Hint.scaled_mem_ofPairs_iff` : the factor by which all shapes grow;
* `Hint.exists_recolor_mem_iff` and `Hint.Recolors.filterMap_eq` : the replacement of colors that
  explains all cells where grids differ;
* `Hint.addsColors_mem_ofPairs_iff` : the colors that only predictions have.
-/
import GridRepair.Hint
import GridRepair.Proofs.Patching
import GridRepair.Proofs.Reordering
import GridRepair.Proofs.Totals

namespace GridRepair

namespace Hint

section Parts

variable {S : Type} {ds : List (Diff S)} {hint : Hint}

/-- The comparisons of failing examples. -/
def failing (ds : List (Diff S)) : List (Diff S) := ds.filter fun d => !d.exact

/-- A failing comparison is one that is not exact. -/
theorem mem_failing {d : Diff S} : d ∈ failing ds ↔ d ∈ ds ∧ d.exact = false := by
  rw [failing, List.mem_filter, Bool.not_eq_true']

/-- Where examples fail, there are hints on solved examples, on shapes or cells, and on colors. -/
theorem ofDiffs_eq (hne : failing ds ≠ []) : ofDiffs ds =
    (if (failing ds).length < ds.length then
      [.someSolved (ds.length - (failing ds).length) ds.length] else []) ++
    (if ∀ d ∈ failing ds, d.sameShape = false then [ofShapes (failing ds)]
      else if ∀ d ∈ failing ds, d.sameShape = true then ofCells (failing ds) else []) ++
    (if (addedByAll (failing ds)).colors = [] then []
      else [.addsColors (addedByAll (failing ds)).colors]) := by
  have hempty : (failing ds).isEmpty = false := List.isEmpty_eq_false_iff.2 hne
  have hunfold : ofDiffs ds = if (failing ds).isEmpty then [] else
      (if 0 < ds.length - (failing ds).length then
        [.someSolved (ds.length - (failing ds).length) ds.length] else []) ++
      (if (failing ds).all fun d => !d.sameShape then [ofShapes (failing ds)]
        else if (failing ds).all fun d => d.sameShape then ofCells (failing ds) else []) ++
      (if (addedByAll (failing ds)).isEmpty then []
        else [.addsColors (addedByAll (failing ds)).colors]) := rfl
  rw [hunfold, hempty, if_neg Bool.false_ne_true]
  simp only [Nat.sub_pos_iff_lt, List.all_eq_true, Bool.not_eq_true', Palette.isEmpty,
    List.isEmpty_iff]

/-- Without failing examples, there are no hints. -/
theorem ofDiffs_of_failing_nil (h : failing ds = []) : ofDiffs ds = [] := by
  have hempty : (failing ds).isEmpty = true := List.isEmpty_iff.2 h
  rw [failing] at hempty
  simp only [ofDiffs, hempty, if_true]

/-- Where examples fail, shapes cannot be all wrong and all right. -/
theorem not_forall_sameShape (hne : failing ds ≠ [])
    (hnone : ∀ d ∈ failing ds, d.sameShape = false) : ¬ ∀ d ∈ failing ds, d.sameShape = true := by
  obtain ⟨d, hd⟩ := List.exists_mem_of_ne_nil _ hne
  intro hall
  exact Bool.false_ne_true ((hnone d hd).symm.trans (hall d hd))

/-- Every hint belongs to one of the parts of the list. -/
theorem mem_ofDiffs_iff : hint ∈ ofDiffs ds ↔ failing ds ≠ [] ∧
    (((failing ds).length < ds.length ∧
        hint = .someSolved (ds.length - (failing ds).length) ds.length) ∨
      ((∀ d ∈ failing ds, d.sameShape = false) ∧ hint = ofShapes (failing ds)) ∨
      ((∀ d ∈ failing ds, d.sameShape = true) ∧ hint ∈ ofCells (failing ds)) ∨
      ((addedByAll (failing ds)).colors ≠ [] ∧
        hint = .addsColors (addedByAll (failing ds)).colors)) := by
  by_cases hnil : failing ds = []
  · rw [ofDiffs_of_failing_nil hnil]
    exact iff_of_false List.not_mem_nil fun h => h.1 hnil
  · have hshapes : hint ∈ (if ∀ d ∈ failing ds, d.sameShape = false then [ofShapes (failing ds)]
        else if ∀ d ∈ failing ds, d.sameShape = true then ofCells (failing ds) else []) ↔
        ((∀ d ∈ failing ds, d.sameShape = false) ∧ hint = ofShapes (failing ds)) ∨
          ((∀ d ∈ failing ds, d.sameShape = true) ∧ hint ∈ ofCells (failing ds)) := by
      by_cases hnone : ∀ d ∈ failing ds, d.sameShape = false
      · rw [if_pos hnone, List.mem_singleton, and_iff_right hnone,
          or_iff_left fun h => not_forall_sameShape hnil hnone h.1]
      · rw [if_neg hnone, List.mem_ite_nil_right, or_iff_right fun h => hnone h.1]
    rw [ofDiffs_eq hnil, List.mem_append, List.mem_append, and_iff_right hnil, hshapes,
      List.mem_ite_nil_right, List.mem_ite_nil_left, List.mem_singleton, List.mem_singleton,
      or_assoc, or_assoc]

/-- The remark on shapes names a factor when it is the one of all comparisons. -/
theorem ofShapes_eq_scaled_iff {ds : List (Diff S)} {k : Nat} :
    ofShapes ds = .scaled k ↔ uniformFactor? ds = some k := by
  unfold ofShapes
  split
  · next k' h =>
    rw [h, Option.some.injEq, scaled.injEq]
  · next h =>
    rw [h]
    refine iff_of_false ?_ (Option.some_ne_none k).symm
    split <;> intro h <;> cases h

/-- The factor of all comparisons is the factor of each of them. -/
theorem uniformFactor?_eq_some_iff {ds : List (Diff S)} {k : Nat} :
    uniformFactor? ds = some k ↔ ds ≠ [] ∧ ∀ d ∈ ds, factor? d = some k := by
  rw [uniformFactor?_eq, Option.join_eq_some_iff, shared_eq_some_iff]

/-! ### One kind of hint -/

/-- The hint is a remark on shapes. -/
def isOnShapes : Hint → Bool
  | .scaled _ => true
  | .shrink => true
  | .reshape => true
  | _ => false

/-- The hint is a remark on cells. -/
def isOnCells : Hint → Bool
  | .recolor .. => true
  | .mostlySurplus => true
  | .mostlyLacking => true
  | _ => false

theorem ne_ofShapes (h : hint.isOnShapes = false) : hint ≠ ofShapes ds := by
  have hshapes : (ofShapes ds).isOnShapes = true := by
    unfold ofShapes
    split
    · rfl
    · split <;> rfl
  rintro rfl
  exact Bool.false_ne_true (h.symm.trans hshapes)

theorem not_mem_ofCells (h : hint.isOnCells = false) : hint ∉ ofCells ds := by
  intro hmem
  have hcells : hint.isOnCells = true := by
    unfold ofCells at hmem
    split at hmem
    · obtain ⟨x, -, rfl⟩ := List.mem_map.1 hmem
      rfl
    · dsimp only at hmem
      split at hmem
      · cases List.mem_singleton.1 hmem
        rfl
      · split at hmem
        · cases List.mem_singleton.1 hmem
          rfl
        · cases hmem
  exact Bool.false_ne_true (h.symm.trans hcells)

/-- Solved examples are counted when some examples are solved and others fail. -/
theorem someSolved_mem_iff {solved total : Nat} : .someSolved solved total ∈ ofDiffs ds ↔
    failing ds ≠ [] ∧ (failing ds).length < ds.length ∧
      solved = ds.length - (failing ds).length ∧ total = ds.length := by
  have hshapes : .someSolved solved total ≠ ofShapes (failing ds) := ne_ofShapes rfl
  have hcells : .someSolved solved total ∉ ofCells (failing ds) := not_mem_ofCells rfl
  simp only [mem_ofDiffs_iff, hshapes, hcells, someSolved.injEq, reduceCtorEq, and_false,
    or_false]

/-- A factor is named when no failing example has the right shape and all ask for the factor. -/
theorem scaled_mem_iff {k : Nat} : .scaled k ∈ ofDiffs ds ↔
    failing ds ≠ [] ∧ (∀ d ∈ failing ds, d.sameShape = false) ∧
      uniformFactor? (failing ds) = some k := by
  have hcells : .scaled k ∉ ofCells (failing ds) := not_mem_ofCells rfl
  simp only [mem_ofDiffs_iff, hcells, reduceCtorEq, and_false, false_or, or_false,
    eq_comm (b := ofShapes (failing ds)), ofShapes_eq_scaled_iff]

/-- Added colors are named when there are some. -/
theorem addsColors_mem_iff {colors : List Color} : .addsColors colors ∈ ofDiffs ds ↔
    failing ds ≠ [] ∧ (addedByAll (failing ds)).colors ≠ [] ∧
      colors = (addedByAll (failing ds)).colors := by
  have hshapes : .addsColors colors ≠ ofShapes (failing ds) := ne_ofShapes rfl
  have hcells : .addsColors colors ∉ ofCells (failing ds) := not_mem_ofCells rfl
  simp only [mem_ofDiffs_iff, hshapes, hcells, addsColors.injEq, reduceCtorEq, and_false,
    false_or]

/-- The replacement that a hint names. -/
def recoloring? : Hint → Option (Color × Color)
  | .recolor a b => some (a, b)
  | _ => none

/-- A remark on shapes names no replacement. -/
theorem recoloring?_ofShapes (ds : List (Diff S)) : (ofShapes ds).recoloring? = none := by
  unfold ofShapes
  split
  · rfl
  · split <;> rfl

/-- The replacements that remarks on cells name are those that explain all wrong cells. -/
theorem filterMap_ofCells (ds : List (Diff S)) : (ofCells ds).filterMap recoloring? =
    (replacements? (ds.flatMap Diff.cells) []).getD [] := by
  unfold ofCells
  split
  · next first rest h =>
    rw [h, List.filterMap_map, Option.getD_some]
    exact List.filterMap_some
  · next h =>
    have hnone : (replacements? (ds.flatMap Diff.cells) []).getD [] = [] := by
      cases hfound : replacements? (ds.flatMap Diff.cells) [] with
      | none => rfl
      | some found =>
        cases found with
        | nil => rfl
        | cons first rest => exact absurd hfound (h first rest)
    rw [hnone]
    show (if _ then [mostlySurplus] else if _ then [mostlyLacking] else []).filterMap _ = _
    split
    · rfl
    · split <;> rfl

/-- Where examples fail, and all of them have the right shape, hints name the replacements that
explain all wrong cells; otherwise they name none. -/
theorem filterMap_ofDiffs (hne : failing ds ≠ []) : (ofDiffs ds).filterMap recoloring? =
    if ∀ d ∈ failing ds, d.sameShape = true then
      (replacements? ((failing ds).flatMap Diff.cells) []).getD [] else [] := by
  rw [ofDiffs_eq hne, List.filterMap_append, List.filterMap_append]
  have hsolved : (if (failing ds).length < ds.length then
      [.someSolved (ds.length - (failing ds).length) ds.length] else []).filterMap recoloring? =
      [] := by
    split <;> rfl
  have hadded : (if (addedByAll (failing ds)).colors = [] then []
      else [.addsColors (addedByAll (failing ds)).colors]).filterMap recoloring? = [] := by
    split <;> rfl
  rw [hsolved, hadded, List.nil_append, List.append_nil]
  by_cases hnone : ∀ d ∈ failing ds, d.sameShape = false
  · rw [if_pos hnone, if_neg (not_forall_sameShape hne hnone), List.filterMap_cons,
      recoloring?_ofShapes]
    rfl
  · rw [if_neg hnone]
    split
    · exact filterMap_ofCells _
    · rfl

end Parts

/-! ## Pairs of grids -/

section Pairs

variable {S : Type} [Scalar S] {pairs : List (Grid × Grid)}

/-- What all failing comparisons have in common, pair by pair. -/
theorem forall_mem_failing {P : Diff S → Prop} :
    (∀ d ∈ failing (Diff.ofPairs S pairs), P d) ↔
      ∀ x ∈ pairs, x.1 ≠ x.2 → P (Diff.between x.1 x.2) := by
  constructor
  · intro h x hx hne
    refine h _ (mem_failing.2 ⟨List.mem_map_of_mem hx, ?_⟩)
    rw [← Bool.not_eq_true, Diff.exact_between_iff]
    exact hne
  · intro h d hd
    obtain ⟨hmem, hexact⟩ := mem_failing.1 hd
    obtain ⟨x, hx, rfl⟩ := List.mem_map.1 hmem
    refine h x hx fun heq => ?_
    rw [(Diff.exact_between_iff x.1 x.2).2 heq] at hexact
    cases hexact

/-- A comparison fails where a pair differs. -/
theorem failing_ne_nil_iff :
    failing (Diff.ofPairs S pairs) ≠ [] ↔ ∃ x ∈ pairs, x.1 ≠ x.2 := by
  have hnil : failing (Diff.ofPairs S pairs) = [] ↔ ∀ x ∈ pairs, x.1 ≠ x.2 → False := by
    rw [← forall_mem_failing (P := fun _ : Diff S => False), List.eq_nil_iff_forall_not_mem]
  rw [ne_eq, hnil]
  simp only [not_forall, exists_prop, not_false_eq_true, and_true]

/-- Comparisons fail, except for the pairs of equal grids. -/
theorem length_failing :
    pairs.length = pairs.countP (fun x => decide (x.1 = x.2)) +
      (failing (Diff.ofPairs S pairs)).length := by
  have hfailing : (failing (Diff.ofPairs S pairs)).length =
      pairs.countP fun x => ¬ decide (x.1 = x.2) := by
    rw [failing, ← List.countP_eq_length_filter, Diff.ofPairs, List.countP_map]
    refine List.countP_congr fun x _ => ?_
    rw [Function.comp, Bool.not_eq_true', ← Bool.not_eq_true, Diff.exact_between_iff]
    simp
  rw [hfailing]
  exact List.length_eq_countP_add_countP _

/-! ## Shapes -/

/-- The factor of a comparison is the one by which both sides of the prediction are multiplied. -/
theorem factor?_between_iff {g m : Grid} {k : Nat} (hheight : 0 < g.height)
    (hwidth : 0 < g.width) : factor? (Diff.between g m : Diff S) = some k ↔
      2 ≤ k ∧ m.height = k * g.height ∧ m.width = k * g.width := by
  simp only [factor?, Diff.predictedShape_between, Diff.expectedShape_between, Grid.shape,
    Option.ite_none_right_eq_some, Option.some.injEq]
  constructor
  · rintro ⟨⟨hrows, hcols, heq, hk⟩, rfl⟩
    refine ⟨hk, (Nat.div_mul_cancel (Nat.dvd_of_mod_eq_zero hrows)).symm, ?_⟩
    rw [heq]
    exact (Nat.div_mul_cancel (Nat.dvd_of_mod_eq_zero hcols)).symm
  · rintro ⟨hk, hrows, hcols⟩
    rw [hrows, hcols, Nat.mul_div_cancel k hheight, Nat.mul_div_cancel k hwidth]
    exact ⟨⟨Nat.mul_mod_left .., Nat.mul_mod_left .., rfl, hk⟩, rfl⟩

/-- A grid with several times the sides of another one has another shape. -/
theorem not_sameShape_of_scaled {g m : Grid} {k : Nat} (hheight : 0 < g.height) (hk : 2 ≤ k)
    (h : m.height = k * g.height) : (Diff.between g m : Diff S).sameShape = false := by
  rw [← Bool.not_eq_true, Diff.sameShape_between_iff]
  intro hshape
  have heq : g.height = m.height := Grid.height_eq hshape
  have hle : 2 * g.height ≤ k * g.height := Nat.mul_le_mul_right _ hk
  omega

/-- A factor is named when all pairs that differ ask for it. -/
theorem scaled_mem_ofPairs_iff (hvalid : ∀ x ∈ pairs, x.1.Valid) {k : Nat} :
    .scaled k ∈ ofDiffs (Diff.ofPairs S pairs) ↔ (∃ x ∈ pairs, x.1 ≠ x.2) ∧ 2 ≤ k ∧
      ∀ x ∈ pairs, x.1 ≠ x.2 → x.2.height = k * x.1.height ∧ x.2.width = k * x.1.width := by
  have hfactor : ∀ x ∈ pairs, factor? (Diff.between x.1 x.2 : Diff S) = some k ↔
      2 ≤ k ∧ x.2.height = k * x.1.height ∧ x.2.width = k * x.1.width :=
    fun x hx => factor?_between_iff (hvalid x hx).1 (hvalid x hx).2.1
  rw [scaled_mem_iff, uniformFactor?_eq_some_iff, failing_ne_nil_iff, forall_mem_failing,
    forall_mem_failing]
  constructor
  · rintro ⟨hfails, -, -, hall⟩
    have hsides := fun x hx hne => (hfactor x hx).1 (hall x hx hne)
    obtain ⟨x, hx, hne⟩ := hfails
    exact ⟨⟨x, hx, hne⟩, (hsides x hx hne).1, fun x hx hne => (hsides x hx hne).2⟩
  · rintro ⟨hfails, hk, hsides⟩
    refine ⟨hfails, fun x hx hne => ?_, hfails, fun x hx hne => ?_⟩
    · exact not_sameShape_of_scaled (hvalid x hx).1 hk (hsides x hx hne).1
    · exact (hfactor x hx).2 ⟨hk, hsides x hx hne⟩

/-! ## Cells -/

/-- At some cell, the first grid of the pair shows one color, and the second grid another one. -/
def Differs (x : Grid × Grid) (a b : Color) : Prop :=
  ∃ p : Cell, x.1.get? p.row p.col = some a ∧ x.2.get? p.row p.col = some b ∧ a ≠ b

/-- Equal grids differ nowhere. -/
theorem Differs.ne {x : Grid × Grid} {a b : Color} (h : Differs x a b) : x.1 ≠ x.2 := by
  obtain ⟨p, ha, hb, hne⟩ := h
  intro heq
  rw [heq, hb, Option.some.injEq] at ha
  exact hne ha.symm

/-- Grids of one shape that are not equal differ somewhere. -/
theorem exists_differs {x : Grid × Grid} (hshape : x.1.shape = x.2.shape) (hne : x.1 ≠ x.2) :
    ∃ a b, Differs x a b := by
  obtain ⟨w, hw⟩ := List.exists_mem_of_ne_nil _ (mt (Diff.wrongCells_eq_nil_iff hshape).1 hne)
  obtain ⟨ha, hb, hdiffer, -⟩ := Diff.mem_wrongCells_iff.1 hw
  exact ⟨w.predicted, w.expected, w.cell, ha, hb, hdiffer⟩

/-- All pairs that differ have one shape. -/
def SameShapes (pairs : List (Grid × Grid)) : Prop :=
  ∀ x ∈ pairs, x.1 ≠ x.2 → x.1.shape = x.2.shape

/-- The wrong cells of all pairs that differ. -/
theorem mem_cells_failing_iff (hshapes : SameShapes pairs) {w : WrongCell} :
    w ∈ (failing (Diff.ofPairs S pairs)).flatMap Diff.cells ↔
      ∃ x ∈ pairs, x.1.get? w.cell.row w.cell.col = some w.predicted ∧
        x.2.get? w.cell.row w.cell.col = some w.expected ∧ w.predicted ≠ w.expected ∧
        w.kind = .of w.predicted w.expected := by
  rw [List.mem_flatMap]
  constructor
  · rintro ⟨d, hd, hw⟩
    obtain ⟨hmem, hexact⟩ := mem_failing.1 hd
    obtain ⟨x, hx, rfl⟩ := List.mem_map.1 hmem
    rw [← Bool.not_eq_true, Diff.exact_between_iff] at hexact
    rw [Diff.cells_between (hshapes x hx hexact), Diff.mem_wrongCells_iff] at hw
    exact ⟨x, hx, hw⟩
  · rintro ⟨x, hx, hw⟩
    have hne : x.1 ≠ x.2 := Differs.ne ⟨w.cell, hw.1, hw.2.1, hw.2.2.1⟩
    refine ⟨Diff.between x.1 x.2, mem_failing.2 ⟨List.mem_map_of_mem hx, ?_⟩, ?_⟩
    · rwa [← Bool.not_eq_true, Diff.exact_between_iff]
    · rwa [Diff.cells_between (hshapes x hx hne), Diff.mem_wrongCells_iff]

/-- Both colors of a wrong color are content. -/
theorem of_eq_otherColor_iff {a b : Color} :
    Mismatch.of a b = .otherColor ↔ a ≠ background ∧ b ≠ background := by
  unfold Mismatch.of
  by_cases ha : a = background
  · simp [ha]
  · by_cases hb : b = background
    · simp [ha, hb]
    · simp [ha, hb]

/-- The wrong cells ask for the replacements of colors by which the grids differ. -/
theorem exists_replacement_iff (hshapes : SameShapes pairs) {a b : Color} :
    (∃ w ∈ (failing (Diff.ofPairs S pairs)).flatMap Diff.cells, (a, b) = replacement w) ↔
      ∃ x ∈ pairs, Differs x a b := by
  constructor
  · rintro ⟨w, hw, heq⟩
    cases heq
    obtain ⟨x, hx, ha, hb, hne, -⟩ := (mem_cells_failing_iff hshapes).1 hw
    exact ⟨x, hx, w.cell, ha, hb, hne⟩
  · rintro ⟨x, hx, p, ha, hb, hne⟩
    exact ⟨⟨p, a, b, .of a b⟩, (mem_cells_failing_iff hshapes).2 ⟨x, hx, ha, hb, hne, rfl⟩, rfl⟩

/-- The replacements that explain all wrong cells, in terms of the pairs: they are sorted, and they
are the pairs of colors by which the grids differ; all of these are content. -/
theorem replacements?_failing_iff (hshapes : SameShapes pairs) {found : List (Color × Color)} :
    replacements? ((failing (Diff.ofPairs S pairs)).flatMap Diff.cells) [] = some found ↔
      (∀ x ∈ pairs, ∀ a b, Differs x a b → a ≠ background ∧ b ≠ background) ∧ Sorted found ∧
        ∀ a b, (a, b) ∈ found ↔ ∃ x ∈ pairs, Differs x a b := by
  have hkinds : (∀ w ∈ (failing (Diff.ofPairs S pairs)).flatMap Diff.cells,
      w.kind = .otherColor) ↔
      ∀ x ∈ pairs, ∀ a b, Differs x a b → a ≠ background ∧ b ≠ background := by
    constructor
    · rintro h x hx a b ⟨p, ha, hb, hne⟩
      exact of_eq_otherColor_iff.1
        (h ⟨p, a, b, .of a b⟩ ((mem_cells_failing_iff hshapes).2 ⟨x, hx, ha, hb, hne, rfl⟩))
    · intro h w hw
      obtain ⟨x, hx, ha, hb, hne, hkind⟩ := (mem_cells_failing_iff hshapes).1 hw
      rw [hkind]
      exact of_eq_otherColor_iff.2 (h x hx _ _ ⟨w.cell, ha, hb, hne⟩)
  rw [replacements?_eq_some_iff .nil, hkinds]
  simp only [Prod.forall, List.not_mem_nil, false_or, exists_replacement_iff hshapes]

/-- One replacement for each color explains all pairs that differ: they have one shape, and where
they differ, both colors are content and the second one replaces the first one. -/
structure Recolors (pairs : List (Grid × Grid)) (f : Color → Color) : Prop where
  fails : ∃ x ∈ pairs, x.1 ≠ x.2
  shapes : SameShapes pairs
  cells : ∀ x ∈ pairs, ∀ a b, Differs x a b → a ≠ background ∧ b ≠ background ∧ b = f a

variable {f : Color → Color}

/-- Sorted pairs of colors replace each color by one color. -/
theorem Sorted.exists_fun {known : List (Color × Color)} (h : Sorted known) :
    ∃ f : Color → Color, ∀ a b, (a, b) ∈ known → b = f a := by
  have hvalue : ∀ a, ∃ c, ∀ b, (a, b) ∈ known → b = c := by
    intro a
    by_cases ha : ∃ c, (a, c) ∈ known
    · obtain ⟨c, hc⟩ := ha
      exact ⟨c, fun b hb => h.eq_of_mem hb hc⟩
    · exact ⟨background, fun b hb => absurd ⟨b, hb⟩ ha⟩
  choose f hf using hvalue
  exact ⟨f, hf⟩

/-- The colors that the first grids show where they differ from the second ones. -/
def replacedColors (pairs : List (Grid × Grid)) : Palette :=
  .ofList (pairs.flatMap fun x => (Diff.wrongCells x.1 x.2).map WrongCell.predicted)

theorem mem_replacedColors_iff {c : Color} :
    c ∈ replacedColors pairs ↔ ∃ x ∈ pairs, ∃ b, Differs x c b := by
  rw [replacedColors, Palette.mem_ofList, List.mem_flatMap]
  refine exists_congr fun x => and_congr_right fun _ => ?_
  rw [List.mem_map]
  constructor
  · rintro ⟨w, hw, rfl⟩
    obtain ⟨ha, hb, hne, -⟩ := Diff.mem_wrongCells_iff.1 hw
    exact ⟨w.expected, w.cell, ha, hb, hne⟩
  · rintro ⟨b, p, ha, hb, hne⟩
    exact ⟨⟨p, c, b, .of c b⟩, Diff.mem_wrongCells_iff.2 ⟨ha, hb, hne, rfl⟩, rfl⟩

/-- Right shapes of comparisons are one shape for each pair that differs. -/
theorem forall_sameShape_iff :
    (∀ d ∈ failing (Diff.ofPairs S pairs), d.sameShape = true) ↔ SameShapes pairs := by
  rw [forall_mem_failing]
  simp only [Diff.sameShape_between_iff]
  rfl

/-- The hints name the replacements of all colors that differ, by ascending color. -/
theorem Recolors.filterMap_eq (h : Recolors pairs f) :
    (ofDiffs (Diff.ofPairs S pairs)).filterMap recoloring? =
      (replacedColors pairs).colors.map fun c => (c, f c) := by
  have hfound : replacements? ((failing (Diff.ofPairs S pairs)).flatMap Diff.cells) [] =
      some ((replacedColors pairs).colors.map fun c => (c, f c)) := by
    refine (replacements?_failing_iff h.shapes).2 ⟨fun x hx a b hab => ?_, ?_, fun a b => ?_⟩
    · obtain ⟨ha, hb, -⟩ := h.cells x hx a b hab
      exact ⟨ha, hb⟩
    · exact List.pairwise_map.2 (replacedColors pairs).ascending
    · rw [List.mem_map]
      constructor
      · rintro ⟨c, hc, heq⟩
        obtain ⟨rfl, rfl⟩ := Prod.mk.inj heq
        obtain ⟨x, hx, b, hb⟩ := mem_replacedColors_iff.1 hc
        obtain ⟨-, -, rfl⟩ := h.cells x hx c b hb
        exact ⟨x, hx, hb⟩
      · rintro ⟨x, hx, hab⟩
        obtain ⟨-, -, rfl⟩ := h.cells x hx a b hab
        exact ⟨a, mem_replacedColors_iff.2 ⟨x, hx, f a, hab⟩, rfl⟩
  rw [filterMap_ofDiffs (failing_ne_nil_iff.2 h.fails), if_pos (forall_sameShape_iff.2 h.shapes),
    hfound, Option.getD_some]

/-- A replacement is named by the hint for it. -/
theorem mem_filterMap_recoloring?_iff {hints : List Hint} {a b : Color} :
    (a, b) ∈ hints.filterMap recoloring? ↔ .recolor a b ∈ hints := by
  rw [List.mem_filterMap]
  constructor
  · rintro ⟨hint, hmem, h⟩
    cases hint <;> cases h
    exact hmem
  · intro h
    exact ⟨_, h, rfl⟩

/-- Replacements are named when there is one for each color that explains all pairs. -/
theorem exists_recolor_mem_iff : (∃ a b, .recolor a b ∈ ofDiffs (Diff.ofPairs S pairs)) ↔
    ∃ f, Recolors pairs f := by
  constructor
  · rintro ⟨a, b, hmem⟩
    have hfails := (mem_ofDiffs_iff.1 hmem).1
    rw [← mem_filterMap_recoloring?_iff, filterMap_ofDiffs hfails] at hmem
    split at hmem
    · next hsame =>
      have hshapes := forall_sameShape_iff.1 hsame
      cases hfound : replacements? ((failing (Diff.ofPairs S pairs)).flatMap Diff.cells) [] with
      | none =>
        rw [hfound] at hmem
        cases hmem
      | some found =>
        obtain ⟨hcontent, hsorted, hpairs⟩ := (replacements?_failing_iff hshapes).1 hfound
        obtain ⟨f, hf⟩ := hsorted.exists_fun
        refine ⟨f, failing_ne_nil_iff.1 hfails, hshapes, fun x hx a b hab => ?_⟩
        obtain ⟨ha, hb⟩ := hcontent x hx a b hab
        exact ⟨ha, hb, hf a b ((hpairs a b).2 ⟨x, hx, hab⟩)⟩
    · cases hmem
  · rintro ⟨f, h⟩
    obtain ⟨x, hx, hne⟩ := h.fails
    obtain ⟨a, b, hab⟩ := exists_differs (h.shapes x hx hne) hne
    refine ⟨a, f a, mem_filterMap_recoloring?_iff.1 ?_⟩
    rw [h.filterMap_eq]
    exact List.mem_map_of_mem (mem_replacedColors_iff.2 ⟨x, hx, b, hab⟩)

/-! ## Counts and colors -/

/-- Solved pairs are counted when some pairs are equal, and others are not. -/
theorem someSolved_mem_ofPairs_iff {solved total : Nat} :
    .someSolved solved total ∈ ofDiffs (Diff.ofPairs S pairs) ↔
      solved = pairs.countP (fun x => decide (x.1 = x.2)) ∧ total = pairs.length ∧
        solved ≠ 0 ∧ solved ≠ total := by
  have hlength : (Diff.ofPairs S pairs).length = pairs.length := List.length_map _
  have hcount : pairs.length = pairs.countP (fun x => decide (x.1 = x.2)) +
      (failing (Diff.ofPairs S pairs)).length := length_failing
  rw [someSolved_mem_iff, hlength, ← List.length_pos_iff]
  omega

/-- A color is added by all failing comparisons when it is a color that the predictions of all pairs
that differ have, and their expected grids lack. -/
theorem mem_addedByAll_failing_iff {c : Color} :
    c ∈ addedByAll (failing (Diff.ofPairs S pairs)) ↔ (∃ x ∈ pairs, x.1 ≠ x.2) ∧
      c ≠ background ∧ ∀ x ∈ pairs, x.1 ≠ x.2 → c ∈ x.1.cells ∧ c ∉ x.2.cells := by
  rw [mem_addedByAll, failing_ne_nil_iff, forall_mem_failing, and_comm (b := c ≠ background)]
  simp only [Diff.mem_extraColors_between]

/-- Added colors are named when there are some, and then all of them are, in ascending order. -/
theorem addsColors_mem_ofPairs_iff {colors : List Color} :
    .addsColors colors ∈ ofDiffs (Diff.ofPairs S pairs) ↔
      (∃ x ∈ pairs, x.1 ≠ x.2) ∧ colors ≠ [] ∧ colors.Pairwise (· < ·) ∧
        ∀ c, c ∈ colors ↔
          c ≠ background ∧ ∀ x ∈ pairs, x.1 ≠ x.2 → c ∈ x.1.cells ∧ c ∉ x.2.cells := by
  rw [addsColors_mem_iff, failing_ne_nil_iff]
  refine and_congr_right fun hfails => ?_
  have hmem : ∀ c, c ∈ addedByAll (failing (Diff.ofPairs S pairs)) ↔
      c ≠ background ∧ ∀ x ∈ pairs, x.1 ≠ x.2 → c ∈ x.1.cells ∧ c ∉ x.2.cells :=
    fun c => mem_addedByAll_failing_iff.trans (and_iff_right hfails)
  constructor
  · rintro ⟨hne, rfl⟩
    exact ⟨hne, (addedByAll _).ascending, hmem⟩
  · rintro ⟨hne, hascending, hcolors⟩
    -- a palette is determined by its members
    have heq : (⟨colors, hascending⟩ : Palette) = addedByAll (failing (Diff.ofPairs S pairs)) :=
      Palette.ext_mem fun c => (hcolors c).trans (hmem c).symm
    have hlist : colors = (addedByAll (failing (Diff.ofPairs S pairs))).colors :=
      congrArg Palette.colors heq
    exact ⟨hlist ▸ hne, hlist⟩

/-! ## All hints -/

/-- The hints state facts about the pairs that differ, and they state each such fact. -/
structure States (pairs : List (Grid × Grid)) (hints : List Hint) : Prop where
  /-- there is nothing to say about equal grids -/
  nothing : (∀ x ∈ pairs, x.1 = x.2) → hints = []
  scaled : ∀ k, .scaled k ∈ hints ↔ (∃ x ∈ pairs, x.1 ≠ x.2) ∧ 2 ≤ k ∧
    ∀ x ∈ pairs, x.1 ≠ x.2 → x.2.height = k * x.1.height ∧ x.2.width = k * x.1.width
  recolored : (∃ a b, .recolor a b ∈ hints) ↔ ∃ f, Recolors pairs f
  /-- the replacements are named once, by ascending color -/
  replacements : ∀ f, Recolors pairs f → ∃ cs : List Color, cs.Pairwise (· < ·) ∧
    (∀ c, c ∈ cs ↔ ∃ x ∈ pairs, ∃ b, Differs x c b) ∧
    hints.filterMap recoloring? = cs.map fun c => (c, f c)
  solved : ∀ solved total, .someSolved solved total ∈ hints ↔
    solved = pairs.countP (fun x => decide (x.1 = x.2)) ∧ total = pairs.length ∧
      solved ≠ 0 ∧ solved ≠ total
  added : ∀ colors, .addsColors colors ∈ hints ↔
    (∃ x ∈ pairs, x.1 ≠ x.2) ∧ colors ≠ [] ∧ colors.Pairwise (· < ·) ∧
      ∀ c, c ∈ colors ↔
        c ≠ background ∧ ∀ x ∈ pairs, x.1 ≠ x.2 → c ∈ x.1.cells ∧ c ∉ x.2.cells

/-- **Hints state facts about all pairs that differ.**  For pairs of a valid prediction and an
expected grid, there are hints only if some pair differs.  A factor is named exactly when it is at
least two and multiplies the sides in all pairs that differ; replacements of colors are named
exactly when one function explains all cells that differ, and then they are its values at the colors
that are replaced, by ascending color; equal pairs are counted exactly when there are some and not
all are equal; and added colors are named exactly when there are some, all of them at once. -/
theorem hints_state_facts (hvalid : ∀ x ∈ pairs, x.1.Valid) :
    States pairs (ofDiffs (Diff.ofPairs S pairs)) where
  nothing := by
    intro hequal
    refine ofDiffs_of_failing_nil ?_
    by_contra hne
    obtain ⟨x, hx, hdiffers⟩ := failing_ne_nil_iff.1 hne
    exact hdiffers (hequal x hx)
  scaled _ := scaled_mem_ofPairs_iff hvalid
  recolored := exists_recolor_mem_iff
  replacements _ h :=
    ⟨_, (replacedColors pairs).ascending, fun _ => mem_replacedColors_iff, h.filterMap_eq⟩
  solved _ _ := someSolved_mem_ofPairs_iff
  added _ := addsColors_mem_ofPairs_iff

/-- Of three pairs, one is solved, and the two others show the color one in place of two. -/
theorem hints_state_facts_miscolored :
    let pairs : List (Grid × Grid) :=
      [(⟨1, 1, #[3], rfl⟩, ⟨1, 1, #[3], rfl⟩), (⟨1, 2, #[1, 4], rfl⟩, ⟨1, 2, #[2, 4], rfl⟩),
        (⟨2, 1, #[1, 0], rfl⟩, ⟨2, 1, #[2, 0], rfl⟩)]
    (∀ x ∈ pairs, x.1.Valid) ∧
    ofDiffs (Diff.ofPairs Rat pairs) = [.someSolved 1 3, .recolor 1 2, .addsColors [1]] ∧
    (∃ f, Recolors pairs f) ∧
    ∀ x ∈ pairs, x.1 ≠ x.2 → 1 ∈ x.1.cells ∧ 1 ∉ x.2.cells := by
  intro pairs
  have hvalid : ∀ x ∈ pairs, x.1.Valid := by decide
  have hhints : ofDiffs (Diff.ofPairs Rat pairs) =
      [.someSolved 1 3, .recolor 1 2, .addsColors [1]] := by decide +kernel
  have hstates := hints_state_facts (S := Rat) hvalid
  rw [hhints] at hstates
  obtain ⟨-, -, -, hcolors⟩ := (hstates.added [1]).1 (by decide)
  exact ⟨hvalid, hhints, hstates.recolored.1 ⟨1, 2, by decide⟩,
    ((hcolors 1).1 (List.mem_singleton_self 1)).2⟩

end Pairs

end Hint

end GridRepair
