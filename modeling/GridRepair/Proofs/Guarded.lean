/-
# Grids with guarded access

A second reading of the grid operations, in which no index is trusted.  A cell is read by row and
column (`Guarded.read`), written by row and column (`Guarded.write`), and a grid is made of a list
of colors (`Guarded.fromColors`); each of these fails by a breach when the cell is outside the grid
or the colors are not a grid.  The operations are written over them with plain numbers as
coordinates.

`Guards` compares such a computation with the one of the library: they agree, and no guard is hit.
Each operation has one lemma, which also says that on a grid of a bounded size its result is one
again (`Grid.Sound`).
-/
import GridRepair.Catalogue
import GridRepair.Proofs.Inversion
import GridRepair.Proofs.Spreading

namespace GridRepair

/-! ## Computations that no guard stops -/

/-- The first computation, which may hold guards, is the second one.  It does not end in a breach,
and a result has the property. -/
inductive Guards {α : Type} (P : α → Prop) : Except Fault α → Except Fault α → Prop where
  | ok {a : α} (h : P a) : Guards P (.ok a) (.ok a)
  | error {fault : Fault} (h : ∀ cause, fault ≠ .breach cause) :
    Guards P (.error fault) (.error fault)

namespace Guards

variable {α β : Type} {P : α → Prop} {Q : β → Prop} {x y : Except Fault α}

theorem eq (h : Guards P x y) : x = y := by
  cases h <;> rfl

/-- A result has the property. -/
theorem of_ok (h : Guards P x y) {a : α} (ha : y = .ok a) : P a := by
  cases h with
  | ok hP => exact Except.ok.inj ha ▸ hP
  | error _ => cases ha

/-- There is no breach. -/
theorem ne_breach (h : Guards P x y) (cause : Breach) : y ≠ .error (.breach cause) := by
  cases h with
  | ok _ => exact nofun
  | error hfault => exact fun e => hfault cause (Except.error.inj e)

/-- A computation with a known result. -/
theorem exists_ok {a : α} (h : Guards P x (.ok a)) : x = .ok a ∧ P a :=
  ⟨h.eq, h.of_ok rfl⟩

/-- Guarded computations in sequence. -/
theorem bind (h : Guards P x y) {f f' : α → Except Fault β}
    (hf : ∀ a, P a → Guards Q (f a) (f' a)) : Guards Q (x >>= f) (y >>= f') := by
  cases h with
  | ok hP => exact hf _ hP
  | error hfault => exact .error hfault

/-- A guarded computation that has a result, followed by another one. -/
theorem bind_ok {a : α} (h : Guards P x (.ok a)) {f : α → Except Fault β} {z : Except Fault β}
    (hf : P a → Guards Q (f a) z) : Guards Q (x >>= f) z := by
  obtain ⟨rfl, hP⟩ := h.exists_ok
  exact hf hP

/-- A change of the result. -/
theorem map (h : Guards P x y) {f : α → β} (hf : ∀ a, P a → Q (f a)) :
    Guards Q (x.map f) (y.map f) := by
  cases h with
  | ok hP => exact .ok (hf _ hP)
  | error hfault => exact .error hfault

end Guards

/-! ## Guarded access -/

namespace Guarded

/-- The color of a cell; a cell outside the grid is a breach. -/
def read (g : Grid) (r c : Nat) : Except Fault Color :=
  if h : g.shape.Contains ⟨r, c⟩ then .ok (g.colorAt r c h.1 h.2) else .error (.breach .grid)

/-- Another color for a cell; a cell outside the grid is a breach. -/
def write (color : Color) (g : Grid) (p : Cell) : Except Fault Grid :=
  if g.shape.Contains p then
    .ok (g.mapIdx fun r c x => if r = p.row ∧ c = p.col then color else x)
  else .error (.breach .grid)

/-- The grid with the given colors, row by row.  There must be a cell, as many colors as cells, and
no color beyond `maxColor`; anything else is a breach. -/
def fromColors (height width : Nat) (colors : List Color) : Except Fault Grid :=
  if h : colors.length = height * width then
    Grid.checked ⟨height, width, colors.toArray, by rw [List.size_toArray, h]⟩
  else .error (.breach .grid)

/-- The grid whose cells are computed from row and column. -/
def build (height width : Nat) (f : Nat → Nat → Except Fault Color) : Except Fault Grid := do
  let colors ← (Shape.cells ⟨height, width⟩).mapM fun p => f p.row p.col
  fromColors height width colors

/-- The grid with every cell replaced by a computation from its row, its column and its color. -/
def rebuild (g : Grid) (f : Nat → Nat → Color → Except Fault Color) : Except Fault Grid :=
  build g.height g.width fun r c => do
    let x ← read g r c
    f r c x

/-- The listed cells that pass a test on the cell and its color. -/
def select (g : Grid) (test : Cell → Color → Bool) : List Cell → Except Fault (List Cell)
  | [] => pure []
  | p :: ps => do
    let x ← read g p.row p.col
    let rest ← select g test ps
    pure (if test p x then p :: rest else rest)

/-- One color written to the listed cells, one after another. -/
def paint (g : Grid) (color : Color) (ps : List Cell) : Except Fault Grid := do
  let painted ← ps.foldlM (write color) g
  fromColors painted.height painted.width painted.cells.toList

end Guarded

/-! ## Sound grids -/

namespace Grid

/-- A valid grid whose sides are within a limit. -/
structure Sound (limit : Nat) (g : Grid) : Prop where
  valid : g.Valid
  height_le : g.height ≤ limit
  width_le : g.width ≤ limit

variable {limit : Nat} {g : Grid}

theorem Sound.height_pos (h : g.Sound limit) : 0 < g.height := h.valid.1

theorem Sound.width_pos (h : g.Sound limit) : 0 < g.width := h.valid.2.1

theorem Sound.height_mem (h : g.Sound limit) : 0 < g.height ∧ g.height ≤ limit :=
  ⟨h.height_pos, h.height_le⟩

theorem Sound.width_mem (h : g.Sound limit) : 0 < g.width ∧ g.width ≤ limit :=
  ⟨h.width_pos, h.width_le⟩

/-- The cells of a valid grid hold colors. -/
theorem Sound.colorAt_le (h : g.Sound limit) {r c : Nat} (hr : r < g.height) (hc : c < g.width) :
    g.colorAt r c hr hc ≤ maxColor :=
  h.valid.2.2 _ (Array.getElem_mem _)

/-- A grid built from colors within the limit is sound. -/
theorem sound_ofFn {height width : Nat} {f : (r c : Nat) → r < height → c < width → Color}
    (hh : 0 < height ∧ height ≤ limit) (hw : 0 < width ∧ width ≤ limit)
    (hf : ∀ r c hr hc, f r c hr hc ≤ maxColor) : (ofFn height width f).Sound limit := by
  refine ⟨⟨hh.1, hw.1, fun x hx => ?_⟩, hh.2, hw.2⟩
  obtain ⟨i, rfl⟩ := (Array.mem_ofFn).1 hx
  exact hf _ _ _ _

end Grid

namespace Guarded

variable {limit : Nat} {g : Grid} {color : Color}

/-! ## Reading and building -/

/-- Inside, the guard of a reading is not hit. -/
theorem guards_read (hg : g.Sound limit) {r c : Nat} (hr : r < g.height) (hc : c < g.width) :
    Guards (· ≤ maxColor) (read g r c) (.ok (g.colorAt r c hr hc)) := by
  rw [read, dif_pos ⟨hr, hc⟩]
  exact .ok (hg.colorAt_le hr hc)

-- outside, it is
example : read (Grid.dot 3) 0 1 = .error (.breach .grid) := rfl

/-- Computations for the members of a list that all have a result. -/
theorem mapM_ofFn {α β : Type} {n : Nat} {k : Fin n → α} {f : α → Except Fault β} {f' : Fin n → β}
    (h : ∀ i, f (k i) = .ok (f' i)) : (List.ofFn k).mapM f = .ok (List.ofFn f') := by
  induction n with
  | zero => simp [pure, Except.pure]
  | succ n ih =>
    rw [List.ofFn_succ, List.ofFn_succ, List.mapM_cons, h 0, ok_bind, ih fun i => h i.succ]
    rfl

/-- A list of colors that a grid is made of makes that grid. -/
theorem guards_fromColors (hg : g.Sound limit) {colors : List Color}
    (hcells : colors.toArray = g.cells) :
    Guards (Grid.Sound limit) (fromColors g.height g.width colors) (.ok g) := by
  have hlength : colors.length = g.height * g.width := by
    rw [← g.size_cells, ← hcells, List.size_toArray]
  rw [fromColors, dif_pos hlength, Grid.checked]
  obtain ⟨height, width, cells, hsize⟩ := g
  subst hcells
  rw [if_pos hg.valid]
  exact .ok hg

/-- A grid is built when each of its cells is computed. -/
theorem guards_build {height width : Nat} {f : Nat → Nat → Except Fault Color}
    {f' : (r c : Nat) → r < height → c < width → Color} (hh : 0 < height ∧ height ≤ limit)
    (hw : 0 < width ∧ width ≤ limit)
    (hf : ∀ r c hr hc, Guards (· ≤ maxColor) (f r c) (.ok (f' r c hr hc))) :
    Guards (Grid.Sound limit) (build height width f) (.ok (Grid.ofFn height width f')) := by
  have hcolors := mapM_ofFn (k := fun i : Fin (height * width) => (⟨i / width, i % width⟩ : Cell))
    (f := fun p => f p.row p.col) fun i =>
      (hf _ _ (Grid.row_lt i.isLt) (Grid.col_lt i.isLt)).eq
  have hsound : (Grid.ofFn height width f').Sound limit :=
    Grid.sound_ofFn hh hw fun r c hr hc => (hf r c hr hc).of_ok rfl
  rw [build, Shape.cells_eq_ofFn, hcolors, ok_bind]
  exact guards_fromColors hsound (List.toArray_ofFn ..)

/-- A grid is rebuilt when each of its colors is replaced. -/
theorem guards_rebuild (hg : g.Sound limit) {f : Nat → Nat → Color → Except Fault Color}
    {f' : Nat → Nat → Color → Color}
    (hf : ∀ r c x, r < g.height → c < g.width → x ≤ maxColor →
      Guards (· ≤ maxColor) (f r c x) (.ok (f' r c x))) :
    Guards (Grid.Sound limit) (rebuild g f) (.ok (g.mapIdx f')) :=
  guards_build hg.height_mem hg.width_mem fun r c hr hc =>
    (guards_read hg hr hc).bind_ok fun hx => hf r c _ hr hc hx

/-- Cells of the grid are selected by a test on their colors. -/
theorem guards_select (hg : g.Sound limit) (test : Cell → Color → Bool) (test' : Cell → Bool)
    {ps : List Cell} (hps : ∀ p ∈ ps, g.shape.Contains p)
    (htest : ∀ p ∈ ps, ∀ x, g.get? p.row p.col = some x → test p x = test' p) :
    Guards (fun qs => ∀ q ∈ qs, g.shape.Contains q) (select g test ps) (.ok (ps.filter test')) := by
  induction ps with
  | nil => exact .ok nofun
  | cons p ps ih =>
    have hp := hps p List.mem_cons_self
    have hx : g.get? p.row p.col = some (g.colorAt p.row p.col hp.1 hp.2) :=
      Grid.get?_eq_some hp.1 hp.2
    have hrest := ih (fun q hq => hps q (List.mem_cons_of_mem p hq))
      fun q hq => htest q (List.mem_cons_of_mem p hq)
    refine (guards_read hg hp.1 hp.2).bind_ok fun _ => hrest.bind_ok fun hinside => ?_
    rw [htest p List.mem_cons_self _ hx, List.filter_cons]
    refine .ok fun q hq => ?_
    split at hq
    · rcases List.mem_cons.1 hq with rfl | hq
      · exact hp
      · exact hinside q hq
    · exact hinside q hq

/-! ## Writing -/

/-- Inside, the guard of an overwriting is not hit. -/
theorem write_eq {p : Cell} (hp : g.shape.Contains p) : write color g p = .ok (g.put p color) := by
  have hview : ∀ q : Cell, (g.mapIdx fun r c x =>
      if r = p.row ∧ c = p.col then color else x).get? q.row q.col =
        (g.put p color).get? q.row q.col := by
    intro q
    have hsame : q = p ↔ q.row = p.row ∧ q.col = p.col := by
      cases p
      cases q
      exact Cell.mk.injEq .. ▸ Iff.rfl
    rw [Grid.get?_mapIdx, Grid.get?_put hp]
    simp only [hsame]
    split
    · next h => rw [h.1, h.2, Grid.get?_eq_some hp.1 hp.2, Option.map_some]
    · exact Option.map_id'
  rw [write, if_pos hp]
  exact congrArg Except.ok (Grid.ext_get? (Grid.shape_put g p color).symm fun r c => hview ⟨r, c⟩)

/-- Inside, no guard is hit when a list of cells is overwritten. -/
theorem foldlM_write {ps : List Cell} (hps : ∀ p ∈ ps, g.shape.Contains p) :
    ps.foldlM (write color) g = .ok (g.putAll ps color) := by
  induction ps generalizing g with
  | nil => rfl
  | cons p ps ih =>
    rw [List.foldlM_cons, write_eq (hps p List.mem_cons_self), ok_bind]
    exact ih fun q hq => (Grid.shape_put g p color).symm ▸ hps q (List.mem_cons_of_mem p hq)

/-- A painted grid stays sound. -/
theorem sound_painted (hg : g.Sound limit) (hcolor : color ≤ maxColor) (seen : Marks) :
    (g.painted color seen).Sound limit := by
  unfold Grid.painted Grid.mapIdx
  refine Grid.sound_ofFn hg.height_mem hg.width_mem fun r c hr hc => ?_
  dsimp only
  split
  · exact hcolor
  · exact hg.colorAt_le hr hc

/-- Writing one color to cells of the grid, told by a test on row and column. -/
theorem guards_paint (hg : g.Sound limit) (hcolor : color ≤ maxColor) {ps : List Cell}
    (hps : ∀ p ∈ ps, g.shape.Contains p) {test : Nat → Nat → Bool}
    (htest : ∀ r c, test r c = true ↔ (⟨r, c⟩ : Cell) ∈ ps) :
    Guards (Grid.Sound limit) (paint g color ps)
      (.ok (g.mapIdx fun r c x => if test r c then color else x)) := by
  have hhas : ∀ p : Cell, ((Marks.none g.shape).addAll ps).has p = test p.row p.col := by
    intro p
    rw [Bool.eq_iff_iff, Marks.has_addAll hps, Marks.has_none, htest, or_iff_left Bool.false_ne_true]
  have hpainted : (g.mapIdx fun r c x => if test r c then color else x) =
      g.painted color ((Marks.none g.shape).addAll ps) := by
    simp only [Grid.painted, hhas]
  rw [paint, foldlM_write hps, ok_bind, hpainted, Grid.putAll_eq_painted hps]
  exact guards_fromColors (sound_painted hg hcolor _) rfl

end Guarded

end GridRepair
