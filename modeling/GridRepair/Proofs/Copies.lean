/-
# Scaling and tiling, one after another

A grid is scaled by dividing coordinates and tiled by their remainders (`Grid.get?_blowUp`,
`Grid.get?_wrap`), so scaling twice divides by the product, a tiling of whole copies tiles like the
grid itself, and the transpose only exchanges the two directions.

The operations are partial: counts of zero, sides that are no counts and sides beyond `maxSide` are
refused, each at its own place.  A side that is no count is beyond `maxSide` as well, so what success
needs is a copy at all and sides within the limit (`Grid.scale_eq_ok_iff`,
`Grid.tileRepeat_eq_ok_iff`).  Two operations in a row need it exactly when the one that replaces
them does (`Grid.copies_compose`).
-/
import Mathlib.Data.Nat.Basic
import Mathlib.Order.Basic
import GridRepair.Symmetry
import GridRepair.Tiling
import GridRepair.Proofs.Inversion

namespace GridRepair

namespace Grid

variable {g out : Grid} {a b k height width : Nat} {shape : Shape}

/-! ## Conditions of success -/

/-- Counts other than zero pass. -/
theorem checkPositive_eq_ok_iff {primitive parameter : String} {count : Nat} {u : Unit} :
    checkPositive primitive parameter count = .ok u ↔ 0 < count := by
  rw [checkPositive, refuse_eq_ok, Nat.pos_iff_ne_zero]
  exact and_iff_left rfl

/-- Copies have a shape when its sides are counts. -/
theorem copiesShape_eq_ok_iff {primitive : String} {g : Grid} {rows cols : Nat} {shape : Shape} :
    copiesShape primitive g rows cols = .ok shape ↔
      (g.height * rows ≤ maxCount ∧ g.width * cols ≤ maxCount) ∧
        ⟨g.height * rows, g.width * cols⟩ = shape :=
  check_eq_ok

/-- Shapes within the limit pass. -/
theorem checkOutput_eq_ok_iff {primitive : String} {shape : Shape} {u : Unit} :
    checkOutput primitive shape = .ok u ↔ shape.height ≤ maxSide ∧ shape.width ≤ maxSide := by
  rw [checkOutput, refuse_eq_ok, not_or, not_lt, not_lt]
  exact and_iff_left rfl

/-- Scaling works for positive factors, as long as both sides stay within the limit. -/
theorem scale_eq_ok_iff {g out : Grid} {k : Nat} :
    g.scale k = .ok out ↔
      0 < k ∧ (g.height * k ≤ maxSide ∧ g.width * k ≤ maxSide) ∧ g.blowUp k = out := by
  have hmax : maxSide ≤ maxCount := by decide
  simp only [scale, bind_eq_ok, pure_eq_ok, checkPositive_eq_ok_iff, copiesShape_eq_ok_iff,
    checkOutput_eq_ok_iff]
  constructor
  · rintro ⟨-, hk, shape, ⟨-, rfl⟩, -, hside, hout⟩
    exact ⟨hk, hside, hout⟩
  · rintro ⟨hk, hside, hout⟩
    exact ⟨(), hk, _, ⟨⟨hside.1.trans hmax, hside.2.trans hmax⟩, rfl⟩, (), hside, hout⟩

/-- A shape that is tiled has positive sides within the limit. -/
theorem tileToSize_eq_ok_iff :
    g.tileToSize height width = .ok out ↔
      (0 < height ∧ 0 < width) ∧ (height ≤ maxSide ∧ width ≤ maxSide) ∧
        g.wrap ⟨height, width⟩ = out := by
  simp only [tileToSize, bind_eq_ok, pure_eq_ok, checkPositive_eq_ok_iff, checkOutput_eq_ok_iff]
  constructor
  · rintro ⟨-, hheight, -, hwidth, -, hside, hout⟩
    exact ⟨⟨hheight, hwidth⟩, hside, hout⟩
  · rintro ⟨⟨hheight, hwidth⟩, hside, hout⟩
    exact ⟨(), hheight, (), hwidth, (), hside, hout⟩

/-- Copies of a grid tile the shape that has room for them. -/
theorem tileRepeat_eq_ok_iff :
    g.tileRepeat a b = .ok out ↔
      (0 < g.height * a ∧ 0 < g.width * b) ∧ (g.height * a ≤ maxSide ∧ g.width * b ≤ maxSide) ∧
        g.wrap ⟨g.height * a, g.width * b⟩ = out := by
  have hmax : maxSide ≤ maxCount := by decide
  simp only [tileRepeat, bind_eq_ok, checkPositive_eq_ok_iff, copiesShape_eq_ok_iff]
  constructor
  · rintro ⟨-, -, -, -, shape, ⟨-, rfl⟩, hout⟩
    exact tileToSize_eq_ok_iff.1 hout
  · rintro ⟨hpos, hside, hout⟩
    have ha : 0 < a := Nat.pos_of_mul_pos_left hpos.1
    have hb : 0 < b := Nat.pos_of_mul_pos_left hpos.2
    exact ⟨(), ha, (), hb, _, ⟨⟨hside.1.trans hmax, hside.2.trans hmax⟩, rfl⟩,
      tileToSize_eq_ok_iff.2 ⟨hpos, hside, hout⟩⟩

/-! ## Blocks -/

/-- The view of a scaled grid. -/
theorem get?_blowUp (g : Grid) (hk : 0 < k) (r c : Nat) :
    (g.blowUp k).get? r c = g.get? (r / k) (c / k) := by
  rw [blowUp, get?_ofFn]
  simp only [get?, Nat.div_lt_iff_lt_mul hk]

/-- Blocks of blocks are blocks. -/
theorem blowUp_blowUp (g : Grid) (ha : 0 < a) (hb : 0 < b) :
    (g.blowUp a).blowUp b = g.blowUp (a * b) := by
  refine ext_get? ?_ fun r c => ?_
  · show Shape.mk (g.height * a * b) (g.width * a * b) = ⟨g.height * (a * b), g.width * (a * b)⟩
    rw [Nat.mul_assoc, Nat.mul_assoc]
  · rw [get?_blowUp _ hb, get?_blowUp _ ha, get?_blowUp _ (Nat.mul_pos ha hb),
      Nat.div_div_eq_div_mul, Nat.div_div_eq_div_mul, Nat.mul_comm b a]

/-- Blocks are squares, so they stay blocks when rows and columns are exchanged. -/
theorem transpose_blowUp (g : Grid) (hk : 0 < k) :
    (g.blowUp k).transpose = g.transpose.blowUp k := by
  refine ext_get? rfl fun r c => ?_
  rw [get?_transpose, get?_blowUp _ hk, get?_blowUp _ hk, get?_transpose]

/-! ## Copies -/

/-- The view of a tiled shape. -/
theorem get?_wrap {r c : Nat} (hheight : 0 < g.height) (hwidth : 0 < g.width)
    (hr : r < shape.height) (hc : c < shape.width) :
    (g.wrap shape).get? r c = g.get? (r % g.height) (c % g.width) := by
  rw [wrap, get?_ofFn, dif_pos ⟨hr, hc⟩,
    get?_eq_some (Nat.mod_lt r hheight) (Nat.mod_lt c hwidth), Option.getD_some]

/-- Whole copies of a grid continue like the grid. -/
theorem wrap_wrap (hheight : 0 < g.height * a) (hwidth : 0 < g.width * b) (shape : Shape) :
    (g.wrap ⟨g.height * a, g.width * b⟩).wrap shape = g.wrap shape := by
  have hg : 0 < g.height ∧ 0 < g.width :=
    ⟨Nat.pos_of_mul_pos_right hheight, Nat.pos_of_mul_pos_right hwidth⟩
  refine ext_inside rfl fun r c hr hc => ?_
  rw [get?_wrap hheight hwidth hr hc, get?_wrap hg.1 hg.2 hr hc]
  show (g.wrap _).get? (r % (g.height * a)) (c % (g.width * b)) = _
  rw [get?_wrap hg.1 hg.2 (Nat.mod_lt r hheight) (Nat.mod_lt c hwidth), Nat.mod_mul_right_mod,
    Nat.mod_mul_right_mod]

/-- A tiled shape with rows and columns exchanged is tiled by the transpose. -/
theorem transpose_wrap (hheight : 0 < g.height) (hwidth : 0 < g.width) (shape : Shape) :
    (g.wrap shape).transpose = g.transpose.wrap ⟨shape.width, shape.height⟩ := by
  refine ext_inside rfl fun r c hr hc => ?_
  rw [get?_transpose, get?_wrap hheight hwidth hc hr, get?_wrap hwidth hheight hr hc,
    get?_transpose]
  rfl

/-! ## Operations in a row -/

/-- Scaling twice is scaling by the product. -/
theorem scale_scale (g : Grid) (a b : Nat) (out : Grid) :
    (g.scale a >>= fun m => m.scale b) = .ok out ↔ g.scale (a * b) = .ok out := by
  simp only [bind_eq_ok, scale_eq_ok_iff]
  constructor
  · rintro ⟨_, ⟨ha, -, rfl⟩, hb, hside, rfl⟩
    refine ⟨Nat.mul_pos ha hb, ?_, (blowUp_blowUp g ha hb).symm⟩
    rw [← Nat.mul_assoc, ← Nat.mul_assoc]
    exact hside
  · rintro ⟨hab, hside, rfl⟩
    have ha : 0 < a := Nat.pos_of_mul_pos_right hab
    have hb : 0 < b := Nat.pos_of_mul_pos_left hab
    rw [← Nat.mul_assoc, ← Nat.mul_assoc] at hside
    -- the grid in between is not larger than the last one
    have hfirst : g.height * a ≤ maxSide ∧ g.width * a ≤ maxSide :=
      ⟨(Nat.le_mul_of_pos_right _ hb).trans hside.1, (Nat.le_mul_of_pos_right _ hb).trans hside.2⟩
    exact ⟨g.blowUp a, ⟨ha, hfirst, rfl⟩, hb, hside, blowUp_blowUp g ha hb⟩

/-- Copies of copies are copies. -/
theorem tileRepeat_tileRepeat (g : Grid) (a b c d : Nat) (out : Grid) :
    (g.tileRepeat a b >>= fun m => m.tileRepeat c d) = .ok out ↔
      g.tileRepeat (a * c) (b * d) = .ok out := by
  simp only [bind_eq_ok, tileRepeat_eq_ok_iff, ← Nat.mul_assoc]
  constructor
  · rintro ⟨_, ⟨hpos, -, rfl⟩, hrest, hside, rfl⟩
    exact ⟨hrest, hside, (wrap_wrap hpos.1 hpos.2 _).symm⟩
  · rintro ⟨hrest, hside, rfl⟩
    have hpos : 0 < g.height * a ∧ 0 < g.width * b :=
      ⟨Nat.pos_of_mul_pos_right hrest.1, Nat.pos_of_mul_pos_right hrest.2⟩
    have hc : 0 < c := Nat.pos_of_mul_pos_left hrest.1
    have hd : 0 < d := Nat.pos_of_mul_pos_left hrest.2
    have hfirst : g.height * a ≤ maxSide ∧ g.width * b ≤ maxSide :=
      ⟨(Nat.le_mul_of_pos_right _ hc).trans hside.1, (Nat.le_mul_of_pos_right _ hd).trans hside.2⟩
    exact ⟨_, ⟨hpos, hfirst, rfl⟩, hrest, hside, wrap_wrap hpos.1 hpos.2 _⟩

/-- After whole copies, a shape is tiled as from the grid itself, or refused in the same way. -/
theorem tileToSize_of_tileRepeat {m : Grid} (h : g.tileRepeat a b = .ok m) (height width : Nat) :
    m.tileToSize height width = g.tileToSize height width := by
  obtain ⟨hpos, -, rfl⟩ := tileRepeat_eq_ok_iff.1 h
  rw [tileToSize, tileToSize, wrap_wrap hpos.1 hpos.2]

/-- Scaling and then exchanging rows and columns is the same as the other way around. -/
theorem transpose_scale (g : Grid) (a : Nat) (out : Grid) :
    (g.scale a).map transpose = .ok out ↔ g.transpose.scale a = .ok out := by
  simp only [map_eq_ok, scale_eq_ok_iff]
  constructor
  · rintro ⟨_, ⟨ha, hside, rfl⟩, rfl⟩
    exact ⟨ha, hside.symm, (transpose_blowUp g ha).symm⟩
  · rintro ⟨ha, hside, rfl⟩
    exact ⟨_, ⟨ha, hside.symm, rfl⟩, transpose_blowUp g ha⟩

/-- Copies with rows and columns exchanged are copies of the transpose in the other directions. -/
theorem transpose_tileRepeat (g : Grid) (a b : Nat) (out : Grid) :
    (g.tileRepeat a b).map transpose = .ok out ↔ g.transpose.tileRepeat b a = .ok out := by
  -- as soon as there is a copy, the grid has a cell
  have hexchange : 0 < g.height * a ∧ 0 < g.width * b →
      (g.wrap ⟨g.height * a, g.width * b⟩).transpose =
        g.transpose.wrap ⟨g.width * b, g.height * a⟩ := fun hpos =>
    transpose_wrap (Nat.pos_of_mul_pos_right hpos.1) (Nat.pos_of_mul_pos_right hpos.2) _
  simp only [map_eq_ok, tileRepeat_eq_ok_iff]
  constructor
  · rintro ⟨_, ⟨hpos, hside, rfl⟩, rfl⟩
    exact ⟨hpos.symm, hside.symm, (hexchange hpos).symm⟩
  · rintro ⟨hpos, hside, rfl⟩
    exact ⟨_, ⟨hpos.symm, hside.symm, rfl⟩, hexchange hpos.symm⟩

/-- **Scaling and tiling compose, and fail together.**  Scaling by one factor and then by another has
a result exactly when scaling by the product has one, and it is the same; likewise for copies of
copies, with the products of the numbers in each direction.  Tiling a shape after whole copies is
tiling it at once.  The transpose of a scaled grid is the scaled transpose, and the transpose of
copies is the transpose copied in the other directions; one side has a result exactly when the other
one has. -/
theorem copies_compose (g : Grid) (a b c d : Nat) :
    (∀ out, (g.scale a >>= fun m => m.scale b) = .ok out ↔ g.scale (a * b) = .ok out) ∧
    (∀ out, (g.tileRepeat a b >>= fun m => m.tileRepeat c d) = .ok out ↔
      g.tileRepeat (a * c) (b * d) = .ok out) ∧
    (∀ m, g.tileRepeat a b = .ok m → ∀ height width,
      m.tileToSize height width = g.tileToSize height width) ∧
    (∀ out, (g.scale a).map transpose = .ok out ↔ g.transpose.scale a = .ok out) ∧
    ∀ out, (g.tileRepeat a b).map transpose = .ok out ↔ g.transpose.tileRepeat b a = .ok out :=
  ⟨scale_scale g a b, tileRepeat_tileRepeat g a b c d, fun _ => tileToSize_of_tileRepeat,
    transpose_scale g a, transpose_tileRepeat g a b⟩

/-- One row of two cells, scaled by two and by three, copied twice and three times, with a part of
the copies tiled, and scaled by a hundred and by two, which is too much. -/
theorem copies_compose_row :
    let g : Grid := ⟨1, 2, #[3, 5], rfl⟩
    (∃ out, (g.scale 2 >>= fun m => m.scale 3) = .ok out ∧ g.scale 6 = .ok out ∧
      out.shape = ⟨6, 12⟩) ∧
    (∃ m, g.tileRepeat 2 3 = .ok m ∧ m.tileToSize 2 5 = g.tileToSize 2 5 ∧
      ∃ out, m.tileToSize 2 5 = .ok out ∧ out.cells = #[3, 5, 3, 5, 3, 3, 5, 3, 5, 3]) ∧
    (∃ out, (g.tileRepeat 2 3).map transpose = .ok out ∧ g.transpose.tileRepeat 3 2 = .ok out) ∧
    (∃ m, g.scale 100 = .ok m) ∧ ∀ out, (g.scale 100 >>= fun m => m.scale 2) ≠ .ok out := by
  intro g
  obtain ⟨sixfold, hsixfold, hshape⟩ : ∃ out, g.scale 6 = .ok out ∧ out.shape = ⟨6, 12⟩ :=
    exists_ok_of_map (by decide +kernel)
  obtain ⟨copies, hcopies, -⟩ : ∃ m, g.tileRepeat 2 3 = .ok m ∧ m.shape = ⟨2, 6⟩ :=
    exists_ok_of_map (by decide +kernel)
  obtain ⟨part, hpart, hcells⟩ : ∃ out, g.tileToSize 2 5 = .ok out ∧
      out.cells = #[3, 5, 3, 5, 3, 3, 5, 3, 5, 3] := exists_ok_of_map (by decide +kernel)
  obtain ⟨hscale, -, htile, -, htranspose⟩ := copies_compose g 2 3 1 1
  have hcut := htile copies hcopies 2 5
  have hturned : (g.tileRepeat 2 3).map transpose = .ok copies.transpose := by rw [hcopies]; rfl
  have hlarge := (copies_compose g 100 2 1 1).1
  refine ⟨⟨sixfold, (hscale sixfold).2 hsixfold, hsixfold, hshape⟩,
    ⟨copies, hcopies, hcut, part, hcut.trans hpart, hcells⟩,
    ⟨copies.transpose, hturned, (htranspose _).1 hturned⟩,
    ⟨g.blowUp 100, scale_eq_ok_iff.2 ⟨by decide, by decide, rfl⟩⟩, fun out hout => ?_⟩
  have hside := (scale_eq_ok_iff.1 ((hlarge out).1 hout)).2.1
  exact absurd hside (by decide)

end Grid

end GridRepair
