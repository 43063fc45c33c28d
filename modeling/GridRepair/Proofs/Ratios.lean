/-
# Ratios of sides

The ratio of two shapes is kept in lowest terms, and computing with it is exact: a fraction in lowest
terms is not changed by a common factor (`Fraction.reduce_mul_right`), so two fractions have the same
lowest terms when they are equal as rationals (`Fraction.reduce_eq_reduce_iff`), and a count has a
multiple by a fraction when the equation for it has a solution
(`Fraction.multiple?_reduce_eq_some_iff`).  The shape for a shape is computed in the range of counts, so
what is said about it is said of shapes whose products stay in range (`Ratio.Fits`).

A task has a ratio when it has examples and the shapes of all of them are proportional
(`Invariants.isSome_ratio?_iff`).  Proportions alone do not give one: without examples all shapes are
proportional, and there is no ratio (`Invariants.not_ratio_of_proportions`).

Towers (`Task.towers`) are tasks whose ratio has large terms, so that the range of counts is met.
-/
import GridRepair.Proofs.Checks

namespace GridRepair

/-! ## Fractions -/

namespace Fraction

variable {num den num' den' m n : Nat}

/-- With a denominator, both terms are divided by their greatest common divisor. -/
theorem reduce_eq (hden : 0 < den) :
    reduce num den = ⟨num / num.gcd den, den / num.gcd den⟩ := by
  have hpos : 0 < num.gcd den := Nat.gcd_pos_of_pos_right num hden
  simp only [reduce, Nat.max_eq_left hpos]

/-- A common factor changes nothing. -/
theorem reduce_mul_right (hden : 0 < den) {k : Nat} (hk : 0 < k) :
    reduce (num * k) (den * k) = reduce num den := by
  rw [reduce_eq (Nat.mul_pos hden hk), reduce_eq hden, Nat.gcd_mul_right,
    Nat.mul_div_mul_right _ _ hk, Nat.mul_div_mul_right _ _ hk]

/-- A whole number is in lowest terms. -/
theorem reduce_one (k : Nat) : reduce k 1 = ⟨k, 1⟩ := by
  rw [reduce_eq Nat.one_pos, Nat.gcd_one_right, Nat.div_one, Nat.div_one]

/-- The numerator in lowest terms is not larger, so its products are in range when those of the
fraction are. -/
theorem fits_reduce (hden : 0 < den) (h : n * num ≤ maxCount) : (reduce num den).Fits n := by
  have hle : (reduce num den).num ≤ num := Nat.div_le_self _ _
  refine ⟨?_, Nat.le_trans (Nat.mul_le_mul_left n hle) h⟩
  rw [reduce_eq hden]
  exact Nat.ne_of_gt (Nat.div_gcd_pos_of_pos_right num hden)

/-- The multiple of a count by a fraction is the solution of an equation. -/
theorem multiple?_eq_some_iff {q : Fraction} (hden : 0 < q.den) :
    q.multiple? n = some m ↔ m * q.den = n * q.num := by
  rw [multiple?, Option.ite_none_right_eq_some, Option.some.injEq]
  constructor
  · rintro ⟨hdvd, rfl⟩
    exact Nat.div_mul_cancel (Nat.dvd_of_mod_eq_zero hdvd)
  · intro h
    rw [← h]
    exact ⟨Nat.mul_mod_left _ _, Nat.mul_div_cancel _ hden⟩

/-- The equation for a multiple is the same in lowest terms. -/
theorem multiple?_reduce_eq_some_iff (hden : 0 < den) :
    (reduce num den).multiple? n = some m ↔ m * den = n * num := by
  have hpos : 0 < num.gcd den := Nat.gcd_pos_of_pos_right num hden
  have hnum : num / num.gcd den * num.gcd den = num :=
    Nat.div_mul_cancel (Nat.gcd_dvd_left num den)
  have hden' : den / num.gcd den * num.gcd den = den :=
    Nat.div_mul_cancel (Nat.gcd_dvd_right num den)
  rw [reduce_eq hden, multiple?_eq_some_iff (Nat.div_gcd_pos_of_pos_right num hden)]
  calc m * (den / num.gcd den) = n * (num / num.gcd den)
      ↔ m * (den / num.gcd den) * num.gcd den = n * (num / num.gcd den) * num.gcd den :=
        (Nat.mul_right_cancel_iff hpos).symm
    _ ↔ m * den = n * num := by rw [Nat.mul_assoc, Nat.mul_assoc, hden', hnum]

/-- Fractions have the same lowest terms when they are equal as rationals. -/
theorem reduce_eq_reduce_iff (hden : 0 < den) (hden' : 0 < den') :
    reduce num den = reduce num' den' ↔ num * den' = num' * den := by
  constructor
  · intro h
    -- the first fraction takes its denominator to its numerator, so the second one does
    have hmultiple : (reduce num' den').multiple? den = some num := by
      rw [← h, multiple?_reduce_eq_some_iff hden, Nat.mul_comm]
    rw [multiple?_reduce_eq_some_iff hden'] at hmultiple
    rw [hmultiple, Nat.mul_comm]
  · intro h
    calc reduce num den = reduce (num * den') (den * den') := (reduce_mul_right hden hden').symm
      _ = reduce (num' * den) (den' * den) := by rw [h, Nat.mul_comm den den']
      _ = reduce num' den' := reduce_mul_right hden' hden

end Fraction

/-! ## Ratios of shapes -/

namespace Ratio

variable {i o i' o' s t : Shape} {k : Nat}

/-- Two pairs of shapes have one ratio when their sides are proportional. -/
theorem between_eq_between_iff (hi : 0 < i.height ∧ 0 < i.width)
    (hi' : 0 < i'.height ∧ 0 < i'.width) : between i o = between i' o' ↔
      o.height * i'.height = o'.height * i.height ∧ o.width * i'.width = o'.width * i.width := by
  rw [between, between, Ratio.mk.injEq, Fraction.reduce_eq_reduce_iff hi.1 hi'.1,
    Fraction.reduce_eq_reduce_iff hi.2 hi'.2]

/-- The exact shape for a shape has the sides that solve both equations. -/
theorem exactShape?_between_eq_some_iff (hi : 0 < i.height ∧ 0 < i.width) :
    (between i o).exactShape? s = some t ↔
      t.height * i.height = s.height * o.height ∧ t.width * i.width = s.width * o.width := by
  obtain ⟨height, width⟩ := t
  rw [← Fraction.multiple?_reduce_eq_some_iff hi.1, ← Fraction.multiple?_reduce_eq_some_iff hi.2,
    exactShape?, between]
  simp [Option.bind_eq_some_iff]

/-- In range, the shape for a shape has the sides that solve both equations. -/
theorem shapeFor?_between_eq_some_iff (hi : 0 < i.height ∧ 0 < i.width)
    (hfits : (between i o).Fits s) :
    (between i o).shapeFor? s = .ok (some t) ↔
      t.height * i.height = s.height * o.height ∧ t.width * i.width = s.width * o.width := by
  rw [shapeFor?_of_fits hfits, Except.ok.injEq, exactShape?_between_eq_some_iff hi]

/-- In range, there is no shape for a shape when the equations have no solution. -/
theorem shapeFor?_between_eq_none_iff (hi : 0 < i.height ∧ 0 < i.width)
    (hfits : (between i o).Fits s) :
    (between i o).shapeFor? s = .ok none ↔ ¬ ∃ t : Shape,
      t.height * i.height = s.height * o.height ∧ t.width * i.width = s.width * o.width := by
  rw [shapeFor?_of_fits hfits, Except.ok.injEq, Option.eq_none_iff_forall_ne_some, not_exists]
  exact forall_congr' fun t => not_congr (exactShape?_between_eq_some_iff hi)

/-- The ratio of two shapes takes the first one back to the second. -/
theorem exactShape?_between (hi : 0 < i.height ∧ 0 < i.width) :
    (between i o).exactShape? i = some o :=
  (exactShape?_between_eq_some_iff hi).2 ⟨Nat.mul_comm .., Nat.mul_comm ..⟩

/-- The second shape is found for the first one in range, and out of range there is a breach. -/
theorem shapeFor?_between (hi : 0 < i.height ∧ 0 < i.width) :
    (between i o).shapeFor? i =
      if (between i o).Fits i then .ok (some o) else .error (.breach .ratio) := by
  split
  · next hfits => rw [shapeFor?_of_fits hfits, exactShape?_between hi]
  · next hover =>
    obtain ⟨height, hheight, -⟩ := Option.bind_eq_some_iff.1 (exactShape?_between (o := o) hi)
    exact shapeFor?_of_not_fits hover (Option.isSome_iff_exists.2 ⟨height, hheight⟩)

/-- The products with the terms of a ratio are in range when those of the sides are. -/
theorem fits_between (hi : 0 < i.height ∧ 0 < i.width) (hheight : s.height * o.height ≤ maxCount)
    (hwidth : s.width * o.width ≤ maxCount) : (between i o).Fits s :=
  ⟨Fraction.fits_reduce hi.1 hheight, Fraction.fits_reduce hi.2 hwidth⟩

-- sides that are no multiples of each other
example : (between ⟨4, 9⟩ ⟨6, 6⟩).shapeFor? ⟨2, 3⟩ = .ok (some ⟨3, 2⟩) := rfl

/-- A ratio has a factor when both of its sides are that number over one. -/
theorem factor?_eq_some_iff {q : Ratio} :
    q.factor? = some k ↔ q.height = ⟨k, 1⟩ ∧ q.width = ⟨k, 1⟩ := by
  obtain ⟨⟨a, b⟩, ⟨c, d⟩⟩ := q
  simp only [factor?, Option.ite_none_right_eq_some, Option.some.injEq, Fraction.mk.injEq]
  constructor
  · rintro ⟨⟨rfl, rfl, rfl⟩, rfl⟩
    exact ⟨⟨rfl, rfl⟩, rfl, rfl⟩
  · rintro ⟨⟨rfl, rfl⟩, rfl, rfl⟩
    exact ⟨⟨rfl, rfl, rfl⟩, rfl⟩

/-- The factor is the number by which both sides are multiplied. -/
theorem factor?_between_eq_some_iff (hi : 0 < i.height ∧ 0 < i.width) :
    (between i o).factor? = some k ↔ o.height = k * i.height ∧ o.width = k * i.width := by
  rw [factor?_eq_some_iff, between, ← Fraction.reduce_one,
    Fraction.reduce_eq_reduce_iff hi.1 Nat.one_pos, Fraction.reduce_eq_reduce_iff hi.2 Nat.one_pos,
    Nat.mul_one, Nat.mul_one]

end Ratio

/-! ## Ratios of tasks -/

namespace Invariants

variable {es : List Example} {e : Example}

/-- The ratio asks for the shape of the output, and out of range for none. -/
theorem ratioShape?_output (he : e ∈ es) (hinput : e.input.Valid)
    (hpresent : (ofExamples es).exhibits .ratio = true) :
    (ofExamples es).ratioShape? e.input =
      if (ofExamples es).Fits e.input then .ok (some e.output.shape) else .error (.breach .ratio) := by
  obtain ⟨q, hq⟩ := Option.isSome_iff_exists.1 (hpresent)
  have hshared := hq
  rw [ratio?_ofExamples, shared_eq_some_iff] at hshared
  obtain rfl := hshared.2 e he
  have hfits : (ofExamples es).Fits e.input ↔ (ratioOf e).Fits e.input.shape := by
    rw [Fits, hq]
    simp
  simp only [ratioShape?, hq, hfits]
  exact Ratio.shapeFor?_between ⟨hinput.1, hinput.2.1⟩

/-- The check of the ratio asks whether a prediction has the shape of the output. -/
theorem holds_ratio (he : e ∈ es) (hinput : e.input.Valid)
    (hpresent : (ofExamples es).exhibits .ratio = true) (predicted : Grid) :
    (ofExamples es).holds e.input predicted .ratio =
      if (ofExamples es).Fits e.input then .ok (decide (e.output.shape = predicted.shape))
      else .error (.breach .ratio) := by
  rw [holds, ratioShape?_output he hinput hpresent]
  split
  · simp only [Except.map, Option.some.injEq]
  · rfl

end Invariants

/-- A task has a ratio when it has examples and their shapes are proportional. -/
theorem Invariants.isSome_ratio?_iff {es : List Example} (hvalid : ∀ e ∈ es, e.input.Valid) :
    (ofExamples es).ratio?.isSome = true ↔ es ≠ [] ∧ ∀ e ∈ es, ∀ e' ∈ es,
      e.output.height * e'.input.height = e'.output.height * e.input.height ∧
        e.output.width * e'.input.width = e'.output.width * e.input.width := by
  have hsides : ∀ e ∈ es, 0 < e.input.shape.height ∧ 0 < e.input.shape.width :=
    fun e he => ⟨(hvalid e he).1, (hvalid e he).2.1⟩
  have hsame : ∀ e ∈ es, ∀ e' ∈ es, ratioOf e = ratioOf e' ↔
      e.output.height * e'.input.height = e'.output.height * e.input.height ∧
        e.output.width * e'.input.width = e'.output.width * e.input.width :=
    fun e he e' he' => Ratio.between_eq_between_iff (hsides e he) (hsides e' he')
  rw [ratio?_ofExamples, Option.isSome_iff_exists]
  constructor
  · rintro ⟨q, hq⟩
    obtain ⟨hne, hall⟩ := shared_eq_some_iff.1 hq
    exact ⟨hne, fun e he e' he' => (hsame e he e' he').1 ((hall e he).trans (hall e' he').symm)⟩
  · rintro ⟨hne, hall⟩
    obtain ⟨e, he⟩ := List.exists_mem_of_ne_nil _ hne
    exact ⟨ratioOf e, shared_eq_some_iff.2
      ⟨hne, fun e' he' => (hsame e' he' e he).2 (hall e' he' e he)⟩⟩

/-- A task without training pairs has no ratio, although no two of its examples are out of
proportion. -/
theorem Invariants.not_ratio_of_proportions : ¬ ∀ t : Task, (∀ e ∈ t.examples, e.input.Valid) →
    ((ofTask t).ratio?.isSome = true ↔ ∀ e ∈ t.examples, ∀ e' ∈ t.examples,
      e.output.height * e'.input.height = e'.output.height * e.input.height ∧
        e.output.width * e'.input.width = e'.output.width * e.input.width) := by
  intro h
  have hratio := (h ⟨"empty", [], []⟩ (List.forall_mem_nil _)).2 (List.forall_mem_nil _)
  cases hratio

/-- **Ratios are exact rational arithmetic.**  For shapes with cells, the ratio tells apart exactly
what is not proportional, it takes a shape to the one that is proportional to it, if there is one, and
its factor is the number by which both sides are multiplied.  Taking a shape to another is said of
products in range, which they are when those of the sides are.  A task has a ratio when it has examples
and all of them are proportional. -/
theorem Ratio.ratios_exact :
    (∀ i o i' o' : Shape, 0 < i.height ∧ 0 < i.width → 0 < i'.height ∧ 0 < i'.width →
      (between i o = between i' o' ↔ o.height * i'.height = o'.height * i.height ∧
        o.width * i'.width = o'.width * i.width)) ∧
    (∀ i o s : Shape, 0 < i.height ∧ 0 < i.width → (between i o).Fits s →
      (∀ t, (between i o).shapeFor? s = .ok (some t) ↔
        t.height * i.height = s.height * o.height ∧ t.width * i.width = s.width * o.width) ∧
      ((between i o).shapeFor? s = .ok none ↔ ¬ ∃ t : Shape,
        t.height * i.height = s.height * o.height ∧ t.width * i.width = s.width * o.width)) ∧
    (∀ i o s : Shape, 0 < i.height ∧ 0 < i.width → s.height * o.height ≤ maxCount →
      s.width * o.width ≤ maxCount → (between i o).Fits s) ∧
    (∀ i o : Shape, 0 < i.height ∧ 0 < i.width →
      ((between i o).Fits i → (between i o).shapeFor? i = .ok (some o)) ∧
      ∀ k, (between i o).factor? = some k ↔ o.height = k * i.height ∧ o.width = k * i.width) ∧
    ∀ t : Task, (∀ e ∈ t.examples, e.input.Valid) →
      ((Invariants.ofTask t).ratio?.isSome = true ↔
        t.examples ≠ [] ∧ ∀ e ∈ t.examples, ∀ e' ∈ t.examples,
          e.output.height * e'.input.height = e'.output.height * e.input.height ∧
            e.output.width * e'.input.width = e'.output.width * e.input.width) := by
  refine ⟨?_, ?_, ?_, ?_, ?_⟩
  · intro i o i' o' hi hi'
    exact between_eq_between_iff hi hi'
  · intro i o s hi hfits
    exact ⟨fun t => shapeFor?_between_eq_some_iff hi hfits, shapeFor?_between_eq_none_iff hi hfits⟩
  · intro i o s hi hheight hwidth
    exact fits_between hi hheight hwidth
  · intro i o hi
    refine ⟨fun hfits => ?_, fun k => factor?_between_eq_some_iff hi⟩
    rw [shapeFor?_between hi, if_pos hfits]
  · intro t hvalid
    exact Invariants.isSome_ratio?_iff hvalid

/-- From four by nine cells to six by six, heights grow by a half and widths shrink by a third, as from
two by three cells to three by two.  Ten rows make fifteen, twenty-two columns have no third; and a
task can have this ratio with inputs of two shapes. -/
theorem Ratio.ratios_exact_oblong :
    let q := between ⟨4, 9⟩ ⟨6, 6⟩
    let t : Task := ⟨"oblong", [⟨.full 2 3 1, some (.full 3 2 1)⟩, ⟨.full 4 9 1, some (.full 6 6 1)⟩],
      []⟩
    q = between ⟨2, 3⟩ ⟨3, 2⟩ ∧ q ≠ between ⟨4, 9⟩ ⟨6, 9⟩ ∧
    q.shapeFor? ⟨4, 9⟩ = .ok (some ⟨6, 6⟩) ∧ q.shapeFor? ⟨10, 21⟩ = .ok (some ⟨15, 14⟩) ∧
    q.shapeFor? ⟨10, 22⟩ = .ok none ∧
    (∀ k, q.factor? ≠ some k) ∧ (between ⟨4, 9⟩ ⟨12, 27⟩).factor? = some 3 ∧
    (∀ e ∈ t.examples, e.input.Valid) ∧ (Invariants.ofTask t).ratio?.isSome = true := by
  intro q t
  obtain ⟨heq, hshape, hfits, hself, htask⟩ := ratios_exact
  have hvalid : ∀ e ∈ t.examples, e.input.Valid := by decide +kernel
  have hrange : ∀ s : Shape, s.height ≤ 10 → s.width ≤ 22 → q.Fits s := by
    intro s hheight hwidth
    refine hfits _ _ s (by decide) ?_ ?_
    · exact Nat.le_trans (Nat.mul_le_mul_right 6 hheight) (by decide)
    · exact Nat.le_trans (Nat.mul_le_mul_right 6 hwidth) (by decide)
  refine ⟨(heq _ _ _ _ (by decide) (by decide)).2 (by decide), fun h => ?_,
    (hself _ _ (by decide)).1 (hrange _ (by decide) (by decide)),
    ((hshape _ _ _ (by decide) (hrange _ (by decide) (by decide))).1 _).2 (by decide),
    (hshape _ _ _ (by decide) (hrange _ (by decide) (by decide))).2.2 ?_, fun k h => ?_,
    ((hself _ _ (by decide)).2 3).2 (by decide), hvalid, (htask t hvalid).2 (by decide +kernel)⟩
  · have hsides := ((heq _ _ _ _ (by decide) (by decide)).1 h).2
    cases hsides
  · rintro ⟨t, -, hwidth⟩
    have hthird : t.width * 9 = 22 * 6 := hwidth
    omega
  · have hsides : 6 = k * 4 ∧ 6 = k * 9 := ((hself _ _ (by decide)).2 k).1 h
    omega

/-! ## Towers -/

/-- A grid of one color is valid. -/
theorem Grid.valid_full {height width : Nat} {color : Color} (hheight : 0 < height)
    (hwidth : 0 < width) (hcolor : color ≤ maxColor) : (full height width color).Valid := by
  refine ⟨hheight, hwidth, fun c hc => ?_⟩
  obtain ⟨i, rfl⟩ := Array.mem_ofFn.1 hc
  exact hcolor

/-- A task of towers.  For each block of `rows + 1` rows in an input, its output has a block of `rows`
rows. -/
def Task.towers (rows : Nat) (blocks : List Nat) : Task where
  name := "towers"
  train := blocks.map fun k => ⟨.full ((rows + 1) * k) 1 0, some (.full (rows * k) 1 0)⟩
  test := []

section Towers

variable {rows : Nat} {blocks : List Nat}

/-- Towers with rows are valid. -/
theorem Task.valid_towers (hrows : 0 < rows) (hblocks : ∀ k ∈ blocks, 0 < k) :
    ∀ q ∈ (towers rows blocks).train, q.input.Valid ∧ ∀ out ∈ q.output?, out.Valid := by
  intro q hq
  obtain ⟨k, hk, rfl⟩ := List.mem_map.1 hq
  have hpos : 0 < k := hblocks k hk
  refine ⟨Grid.valid_full (Nat.mul_pos (Nat.succ_pos rows) hpos) Nat.one_pos (Nat.zero_le _), ?_⟩
  rintro out ⟨⟩
  exact Grid.valid_full (Nat.mul_pos hrows hpos) Nat.one_pos (Nat.zero_le _)

/-- All towers have outputs. -/
theorem Task.examples_towers : (towers rows blocks).examples =
    blocks.map fun k => ⟨.full ((rows + 1) * k) 1 0, .full (rows * k) 1 0⟩ := by
  rw [examples, towers, List.filterMap_map, ← List.filterMap_eq_map]
  rfl

/-- Neighboring numbers have no common factor, so the ratio of towers is that of one block. -/
theorem Invariants.ratio?_towers (hne : blocks ≠ []) (hblocks : ∀ k ∈ blocks, 0 < k) :
    (ofTask (.towers rows blocks)).ratio? = some ⟨⟨rows, rows + 1⟩, ⟨1, 1⟩⟩ := by
  have hcoprime : rows.gcd (rows + 1) = 1 := by simp
  have hblock : Fraction.reduce rows (rows + 1) = ⟨rows, rows + 1⟩ := by
    rw [Fraction.reduce_eq (Nat.succ_pos rows), hcoprime, Nat.div_one, Nat.div_one]
  rw [ofTask, ratio?_ofExamples, shared_eq_some_iff, Task.examples_towers]
  refine ⟨fun h => hne (List.map_eq_nil_iff.1 h), List.forall_mem_map.2 fun k hk => ?_⟩
  show (⟨Fraction.reduce (rows * k) ((rows + 1) * k), Fraction.reduce 1 1⟩ : Ratio) = _
  rw [Fraction.reduce_mul_right (Nat.succ_pos rows) (hblocks k hk), hblock, Fraction.reduce_one]

/-- Towers are in range when the product of the rows of an input and those of a block is. -/
theorem Invariants.fits_towers_iff (hne : blocks ≠ []) (hblocks : ∀ k ∈ blocks, 0 < k) {k : Nat} :
    (ofTask (.towers rows blocks)).Fits (.full ((rows + 1) * k) 1 0) ↔
      (rows + 1) * k * rows ≤ maxCount := by
  rw [Fits, ratio?_towers hne hblocks]
  constructor
  · exact fun h => (h _ rfl).1.2
  · rintro h _ ⟨⟩
    have hwidth : 1 * 1 ≤ maxCount := by decide
    exact ⟨⟨Nat.succ_ne_zero rows, h⟩, Nat.one_ne_zero, hwidth⟩

end Towers

end GridRepair
