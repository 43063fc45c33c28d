/-
# Checks of invariants

A prediction is checked against the ratio of a task by multiplying sides, and a product out of range is
a breach.  `Ratio.exactShape?` and `Invariants.agrees` say what the checks compute in numbers without a
bound.  Where a check has a result, it is that one (`Invariants.satisfied_eq_ok`), and it has a result
when the products are in range (`Invariants.Fits`).  The only fault of a check is that breach
(`Invariants.satisfied_eq_error`).
-/
import GridRepair.Proofs.Examples
import GridRepair.Proofs.Inversion

namespace GridRepair

/-! ## Multiples of sides -/

namespace Fraction

variable {q : Fraction} {n : Nat}

/-- The multiple of a count by the fraction, if it is a whole number. -/
def multiple? (q : Fraction) (n : Nat) : Option Nat :=
  if n * q.num % q.den = 0 then some (n * q.num / q.den) else none

/-- There is a denominator, and the product with the numerator is in range. -/
def Fits (q : Fraction) (n : Nat) : Prop := q.den ≠ 0 ∧ n * q.num ≤ maxCount

instance : Decidable (q.Fits n) := inferInstanceAs (Decidable (_ ∧ _))

/-- In range a multiple is found, and out of range there is a breach. -/
theorem scale?_eq (q : Fraction) (n : Nat) :
    q.scale? n = if q.Fits n then .ok (q.multiple? n) else .error (.breach .ratio) := by
  rw [scale?]
  by_cases hfits : q.Fits n
  · rw [if_pos hfits, if_neg fun h => h.elim hfits.1 (Nat.not_lt.2 hfits.2)]
    rfl
  · rw [if_neg hfits, if_pos]
    rw [Fits, not_and_or, Nat.not_le] at hfits
    exact hfits.imp_left not_not.1

end Fraction

namespace Ratio

variable {q : Ratio} {s : Shape}

/-- The output shape for an input shape, if its sides are whole numbers. -/
def exactShape? (q : Ratio) (s : Shape) : Option Shape :=
  (q.height.multiple? s.height).bind fun height =>
    (q.width.multiple? s.width).map fun width => ⟨height, width⟩

/-- Both products are in range. -/
def Fits (q : Ratio) (s : Shape) : Prop := q.height.Fits s.height ∧ q.width.Fits s.width

instance : Decidable (q.Fits s) := inferInstanceAs (Decidable (_ ∧ _))

/-- In range, the shape is the exact one. -/
theorem shapeFor?_of_fits (h : q.Fits s) : q.shapeFor? s = .ok (q.exactShape? s) := by
  rw [shapeFor?, Fraction.scale?_eq, if_pos h.1, ok_bind, exactShape?]
  cases q.height.multiple? s.height with
  | none => rfl
  | some height =>
    simp only [Fraction.scale?_eq, if_pos h.2]
    rfl

/-- A shape that is found is the exact one. -/
theorem shapeFor?_eq_ok {t? : Option Shape} (h : q.shapeFor? s = .ok t?) :
    t? = q.exactShape? s := by
  rw [shapeFor?, Fraction.scale?_eq] at h
  split at h
  swap
  · cases h
  rw [ok_bind] at h
  rw [exactShape?]
  cases hheight : q.height.multiple? s.height with
  | none =>
    rw [hheight] at h
    exact (pure_eq_ok.1 h).symm
  | some height =>
    simp only [hheight, Fraction.scale?_eq] at h
    split at h
    · exact (pure_eq_ok.1 h).symm
    · cases h

/-- Out of range there is a breach, if the height is a whole number. -/
theorem shapeFor?_of_not_fits (h : ¬ q.Fits s) (hheight : (q.height.multiple? s.height).isSome) :
    q.shapeFor? s = .error (.breach .ratio) := by
  obtain ⟨height, hheight⟩ := Option.isSome_iff_exists.1 hheight
  rw [shapeFor?, Fraction.scale?_eq]
  split
  · next hfits =>
    simp only [ok_bind, hheight, Fraction.scale?_eq]
    rw [if_neg fun hwidth => h ⟨hfits, hwidth⟩]
    rfl
  · rfl

end Ratio

/-! ## Breaches -/

/-- The computation has a result, unless it ends in a breach of the range of ratios. -/
def RatioBound {α : Type} (x : Except Fault α) : Prop :=
  ∀ fault, x = .error fault → fault = .breach .ratio

namespace RatioBound

variable {α β : Type} {x : Except Fault α}

/-- A result is no fault. -/
theorem ok (a : α) : RatioBound (.ok a) := nofun

/-- A sequence of such computations is one. -/
theorem bind (h : RatioBound x) {f : α → Except Fault β} (hf : ∀ a, RatioBound (f a)) :
    RatioBound (x >>= f) := by
  intro fault hfault
  rcases bind_eq_error.1 hfault with hx | ⟨a, -, ha⟩
  · exact h fault hx
  · exact hf a fault ha

/-- A change of the result keeps faults. -/
theorem map (h : RatioBound x) (f : α → β) : RatioBound (x.map f) :=
  fun fault hfault => h fault (map_eq_error.1 hfault)

theorem scale? (q : Fraction) (n : Nat) : RatioBound (q.scale? n) := by
  rw [Fraction.scale?_eq]
  split
  · exact ok _
  · rintro _ ⟨⟩
    rfl

theorem shapeFor? (q : Ratio) (s : Shape) : RatioBound (q.shapeFor? s) := by
  refine (scale? _ _).bind fun height? => ?_
  cases height? with
  | none => exact ok _
  | some height => exact (scale? _ _).bind fun width? => ok _

end RatioBound

/-! ## Predictions -/

namespace Invariants

variable {s : Invariants} {input : Grid} {pairs : List (Example × Grid)} {i : Invariant}

/-- A prediction for an input agrees with an invariant, in exact numbers. -/
def agrees (s : Invariants) (input predicted : Grid) : Invariant → Bool
  | .fixedShape => s.fixedShape? = some predicted.shape
  | .ratio => s.ratio?.bind (·.exactShape? input.shape) = some predicted.shape
  | .inputPalette => predicted.palette.subset s.inputPalette
  | .outputPalette => predicted.palette.subset s.outputPalette
  | .palettePreserved => s.palettePreserved && predicted.palette = input.palette

/-- The ratio, if there is one, stays in range on the input. -/
def Fits (s : Invariants) (input : Grid) : Prop := ∀ q ∈ s.ratio?, q.Fits input.shape

instance : Decidable (s.Fits input) := inferInstanceAs (Decidable (∀ q ∈ s.ratio?, _))

/-- In range, the shape that the ratio asks for is the exact one. -/
theorem ratioShape?_of_fits (h : s.Fits input) :
    s.ratioShape? input = .ok (s.ratio?.bind (·.exactShape? input.shape)) := by
  rw [ratioShape?]
  cases hq : s.ratio? with
  | none => rfl
  | some q => exact Ratio.shapeFor?_of_fits (h q hq)

/-- A shape that the ratio asks for is the exact one. -/
theorem ratioShape?_eq_ok {t? : Option Shape} (h : s.ratioShape? input = .ok t?) :
    t? = s.ratio?.bind (·.exactShape? input.shape) := by
  rw [ratioShape?] at h
  cases hq : s.ratio? with
  | none =>
    rw [hq] at h
    exact (Except.ok.inj h).symm
  | some q =>
    rw [hq] at h
    exact Ratio.shapeFor?_eq_ok h

/-- In range, a check says whether the prediction agrees. -/
theorem holds_of_fits (h : s.Fits input) (predicted : Grid) (i : Invariant) :
    s.holds input predicted i = .ok (s.agrees input predicted i) := by
  cases i with
  | ratio => rw [holds, ratioShape?_of_fits h]; rfl
  | fixedShape | inputPalette | outputPalette | palettePreserved => rfl

/-- A check other than that of the ratio says whether the prediction agrees. -/
theorem holds_of_ne_ratio (hi : i ≠ .ratio) (input predicted : Grid) :
    s.holds input predicted i = .ok (s.agrees input predicted i) := by
  cases i with
  | ratio => exact absurd rfl hi
  | fixedShape | inputPalette | outputPalette | palettePreserved => rfl

/-- The result of a check says whether the prediction agrees. -/
theorem holds_eq_ok {predicted : Grid} {b : Bool} (h : s.holds input predicted i = .ok b) :
    b = s.agrees input predicted i := by
  by_cases hi : i = .ratio
  · subst hi
    obtain ⟨t?, ht, rfl⟩ := map_eq_ok.1 h
    rw [ratioShape?_eq_ok ht]
    rfl
  · rw [holds_of_ne_ratio hi] at h
    exact (Except.ok.inj h).symm

/-- In range, all predictions are checked. -/
theorem holdsThroughout_of_fits (h : ∀ pair ∈ pairs, s.Fits pair.1.input) :
    s.holdsThroughout i pairs = .ok (pairs.all fun pair => s.agrees pair.1.input pair.2 i) := by
  induction pairs with
  | nil => rfl
  | cons pair pairs ih =>
    obtain ⟨hpair, hpairs⟩ := List.forall_mem_cons.1 h
    rw [holdsThroughout, holds_of_fits hpair, ok_bind, ih hpairs, List.all_cons]
    cases s.agrees pair.1.input pair.2 i <;> rfl

/-- The result of all checks says whether all predictions agree. -/
theorem holdsThroughout_eq_ok {b : Bool} (h : s.holdsThroughout i pairs = .ok b) :
    b = pairs.all fun pair => s.agrees pair.1.input pair.2 i := by
  induction pairs with
  | nil => exact (Except.ok.inj h).symm
  | cons pair pairs ih =>
    rw [holdsThroughout] at h
    obtain ⟨first, hfirst, h⟩ := bind_eq_ok.1 h
    rw [List.all_cons, ← holds_eq_ok hfirst]
    cases first with
    | true => exact ih h
    | false => exact (pure_eq_ok.1 h).symm

/-- The present invariants are those that are exhibited. -/
theorem mem_present : i ∈ s.present ↔ s.exhibits i = true := by
  rw [present, List.mem_filter, and_iff_right]
  cases i <;> decide

/-- The members that pass a check that has results are those that pass. -/
theorem passing_of_ok {check : Invariant → Except Fault Bool} (test : Invariant → Bool)
    {is : List Invariant} (h : ∀ i ∈ is, check i = .ok (test i)) :
    passing check is = .ok (is.filter test) := by
  induction is with
  | nil => rfl
  | cons i is ih =>
    obtain ⟨hi, his⟩ := List.forall_mem_cons.1 h
    rw [passing, hi, ok_bind, ih his, ok_bind, List.filter_cons]
    rfl

/-- The members that were found to pass are those that pass. -/
theorem passing_eq_ok {check : Invariant → Except Fault Bool} {test : Invariant → Bool}
    (hcheck : ∀ i b, check i = .ok b → b = test i) {is kept : List Invariant}
    (h : passing check is = .ok kept) : kept = is.filter test := by
  induction is generalizing kept with
  | nil => exact (Except.ok.inj h).symm
  | cons i is ih =>
    simp only [passing, bind_eq_ok, pure_eq_ok] at h
    obtain ⟨b, hb, rest, hrest, rfl⟩ := h
    rw [hcheck i b hb, ih hrest, List.filter_cons]

/-- The members that pass are found when the check has a result for each member. -/
theorem exists_passing_iff {check : Invariant → Except Fault Bool} {is : List Invariant} :
    (∃ kept, passing check is = .ok kept) ↔ ∀ i ∈ is, ∃ b, check i = .ok b := by
  induction is with
  | nil => exact iff_of_true ⟨[], rfl⟩ (List.forall_mem_nil _)
  | cons i is ih =>
    rw [List.forall_mem_cons, ← ih]
    simp only [passing, bind_eq_ok, pure_eq_ok]
    constructor
    · rintro ⟨-, b, hb, rest, hrest, rfl⟩
      exact ⟨⟨b, hb⟩, rest, hrest⟩
    · rintro ⟨⟨b, hb⟩, rest, hrest⟩
      exact ⟨_, b, hb, rest, hrest, rfl⟩

/-- In range, the satisfied invariants are found. -/
theorem satisfied_of_fits (h : ∀ pair ∈ pairs, s.Fits pair.1.input) :
    s.satisfied pairs =
      .ok (s.present.filter fun i => pairs.all fun pair => s.agrees pair.1.input pair.2 i) :=
  passing_of_ok _ fun _ _ => holdsThroughout_of_fits h

/-- Invariants that are found to be satisfied are the present ones that all predictions agree
with. -/
theorem satisfied_eq_ok {kept : List Invariant} (h : s.satisfied pairs = .ok kept) :
    kept = s.present.filter fun i => pairs.all fun pair => s.agrees pair.1.input pair.2 i :=
  passing_eq_ok (fun _ _ => holdsThroughout_eq_ok) h

/-- Looking for satisfied invariants can only fail out of range. -/
theorem satisfied_eq_error {fault : Fault} (h : s.satisfied pairs = .error fault) :
    fault = .breach .ratio ∧ ∃ pair ∈ pairs, ¬ s.Fits pair.1.input := by
  have hshape : ∀ input, RatioBound (s.ratioShape? input) := by
    intro input
    rw [ratioShape?]
    split
    · exact .ok _
    · exact .shapeFor? _ _
  have hholds : ∀ input predicted i, RatioBound (s.holds input predicted i) := by
    intro input predicted i
    cases i with
    | ratio => exact (hshape input).map _
    | fixedShape | inputPalette | outputPalette | palettePreserved => exact .ok _
  have hall : ∀ i pairs, RatioBound (s.holdsThroughout i pairs) := by
    intro i pairs
    induction pairs with
    | nil => exact .ok _
    | cons pair pairs ih =>
      refine (hholds _ _ _).bind fun first => ?_
      cases first with
      | true => exact ih
      | false => exact .ok _
  have hpassing : ∀ is, RatioBound (passing (fun i => s.holdsThroughout i pairs) is) := by
    intro is
    induction is with
    | nil => exact .ok _
    | cons i is ih => exact (hall i pairs).bind fun _ => ih.bind fun _ => .ok _
  refine ⟨hpassing s.present fault h, ?_⟩
  by_contra hfits
  push Not at hfits
  rw [satisfied_of_fits hfits] at h
  cases h

/-- A check other than that of the ratio has a result for every list of predictions. -/
theorem exists_holdsThroughout_of_ne_ratio (hi : i ≠ .ratio) (pairs : List (Example × Grid)) :
    ∃ b, s.holdsThroughout i pairs = .ok b := by
  induction pairs with
  | nil => exact ⟨true, rfl⟩
  | cons pair pairs ih =>
    rw [holdsThroughout, holds_of_ne_ratio hi, ok_bind]
    cases s.agrees pair.1.input pair.2 i with
    | true => exact ih
    | false => exact ⟨false, rfl⟩

/-- The satisfied invariants are found when the check of the ratio has a result, if there is one. -/
theorem exists_satisfied_iff : (∃ kept, s.satisfied pairs = .ok kept) ↔
    (s.exhibits .ratio = true → ∃ b, s.holdsThroughout .ratio pairs = .ok b) := by
  rw [satisfied, exists_passing_iff]
  simp only [mem_present]
  constructor
  · exact fun h => h .ratio
  · intro h i hi
    by_cases hratio : i = .ratio
    · exact hratio ▸ h (hratio ▸ hi)
    · exact exists_holdsThroughout_of_ne_ratio hratio pairs

end Invariants

/-- The sides of all examples stay in range when they are multiplied with the terms of their
ratios. -/
def Task.RatiosFit (t : Task) : Prop :=
  ∀ e ∈ t.examples, (Invariants.ratioOf e).Fits e.input.shape

instance (t : Task) : Decidable t.RatiosFit := inferInstanceAs (Decidable (∀ e ∈ t.examples, _))

/-- The ratio of a task is that of every example. -/
theorem Task.RatiosFit.fits {t : Task} (h : t.RatiosFit) {e : Example} (he : e ∈ t.examples) :
    (Invariants.ofTask t).Fits e.input := by
  intro q hq
  rw [Option.mem_def, Invariants.ofTask, Invariants.ratio?_ofExamples, shared_eq_some_iff] at hq
  exact hq.2 e he ▸ h e he

/-- Looking for the satisfied invariants of a task has a result when all products are in range. -/
theorem Task.RatiosFit.satisfied_ne_error {t : Task} (h : t.RatiosFit) {outs : List Grid}
    {fault : Fault} : (Invariants.ofTask t).satisfied (t.examples.zip outs) ≠ .error fault := by
  intro herror
  obtain ⟨-, pair, hpair, hover⟩ := Invariants.satisfied_eq_error herror
  exact hover (h.fits (List.of_mem_zip hpair).1)

end GridRepair
