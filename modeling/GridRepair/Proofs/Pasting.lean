/-
# Pasting and masks

Pasting lays the cells of a source over a target.  What comes out is told by two rules: a cell of
the target on which a source cell of another color than the background falls shows that color, and
any other cell keeps its own (`Grid.Pasted`).  The rules leave no choice (`Grid.Pasted.unique`), so
whatever obeys them is the paste.

One of these is a loop over the source, which reads a cell, adds the offset to its coordinates and
writes the color where they lead (`Guarded.layAll`).  Sums that leave the range of integers, and
cells outside the target, are skipped.  A step of the loop keeps the rules for the cells laid so far
(`Guarded.pasted_lay`), and no guard is ever hit.  Another one is the overlay, which combines two
grids of one shape cell by cell (`Grid.overlay_eq`).
-/
import GridRepair.Proofs.Connection
import GridRepair.Proofs.Operations
import GridRepair.Proofs.Rectangles

namespace GridRepair

namespace Grid

variable {target source out out' : Grid} {row col : Int} {bg s : Color}
  {cells done : List Cell} {p q : Cell}

/-! ## The rules of pasting -/

/-- The listed cells of a source, pasted on a target with an offset.  A source cell lies on the cell
of the target from which it is the offset away; where it is not of the background color it is shown,
and everything else is kept. -/
structure Pasted (target source : Grid) (row col : Int) (bg : Color) (cells : List Cell)
    (out : Grid) : Prop where
  shape_eq : out.shape = target.shape
  shown : ∀ p : Cell, ∀ q ∈ cells, ∀ s, target.shape.Contains p →
    q.IsAt (p.row - row) (p.col - col) → source.get? q.row q.col = some s → s ≠ bg →
    out.get? p.row p.col = some s
  kept : ∀ p : Cell, (∀ q ∈ cells, ∀ s, q.IsAt (p.row - row) (p.col - col) →
    source.get? q.row q.col = some s → s = bg) → out.get? p.row p.col = target.get? p.row p.col

/-- The rules tell the color of every cell. -/
theorem Pasted.unique (h : Pasted target source row col bg cells out)
    (h' : Pasted target source row col bg cells out') : out = out' := by
  refine ext_inside (h.shape_eq.trans h'.shape_eq.symm) fun r c hr hc => ?_
  have hp : target.shape.Contains ⟨r, c⟩ := h.shape_eq ▸ ⟨hr, hc⟩
  by_cases hkeep : ∀ q ∈ cells, ∀ s, q.IsAt (r - row) (c - col) →
      source.get? q.row q.col = some s → s = bg
  · exact (h.kept ⟨r, c⟩ hkeep).trans (h'.kept ⟨r, c⟩ hkeep).symm
  · push Not at hkeep
    obtain ⟨q, hq, s, hat, hs, hne⟩ := hkeep
    exact (h.shown ⟨r, c⟩ q hq s hp hat hs hne).trans (h'.shown ⟨r, c⟩ q hq s hp hat hs hne).symm

/-- A cell falls on one cell only. -/
theorem eq_of_isAt {p' : Cell} (h : q.IsAt (p.row - row) (p.col - col))
    (h' : q.IsAt (p'.row - row) (p'.col - col)) : p = p' := by
  obtain ⟨r, c⟩ := p
  obtain ⟨r', c'⟩ := p'
  simp only [Cell.IsAt, Cell.mk.injEq] at *
  omega

/-- A cell of the source that is shown on no cell of the target may be left out. -/
theorem Pasted.skip (h : Pasted target source row col bg done out)
    (hskip : ∀ (p : Cell) s, target.shape.Contains p → q.IsAt (p.row - row) (p.col - col) →
      source.get? q.row q.col = some s → s = bg) :
    Pasted target source row col bg (done ++ [q]) out where
  shape_eq := h.shape_eq
  shown := by
    intro p q' hq' s hp hat hs hne
    rcases List.mem_append.1 hq' with hdone | hnew
    · exact h.shown p q' hdone s hp hat hs hne
    · obtain rfl := List.mem_singleton.1 hnew
      exact absurd (hskip p s hp hat hs) hne
  kept := by
    intro p hkeep
    exact h.kept p fun q' hq' => hkeep q' (List.mem_append_left _ hq')

/-- A cell of the source is shown when its color is painted on the cell on which it falls. -/
theorem Pasted.paint (h : Pasted target source row col bg done out)
    (hat : q.IsAt (p.row - row) (p.col - col)) (hs : source.get? q.row q.col = some s)
    (hne : s ≠ bg) (hpaint : out.Paints (· = p) s out') :
    Pasted target source row col bg (done ++ [q]) out' where
  shape_eq := hpaint.shape_eq.trans h.shape_eq
  shown := by
    intro p' q' hq' s' hp' hat' hs' hne'
    by_cases hsame : p' = p
    · subst hsame
      obtain rfl := hat'.eq hat
      rw [hs, Option.some.injEq] at hs'
      rw [← hs']
      exact hpaint.inside p' (h.shape_eq ▸ hp') rfl
    · rw [hpaint.outside p' hsame]
      rcases List.mem_append.1 hq' with hdone | hnew
      · exact h.shown p' q' hdone s' hp' hat' hs' hne'
      · obtain rfl := List.mem_singleton.1 hnew
        exact absurd (eq_of_isAt hat' hat) hsame
  kept := by
    intro p' hkeep
    have hother : p' ≠ p := by
      rintro rfl
      exact hne (hkeep q (List.mem_append_right _ (List.mem_singleton_self q)) s hat hs)
    rw [hpaint.outside p' hother]
    exact h.kept p' fun q' hq' => hkeep q' (List.mem_append_left _ hq')

/-- The color at integer coordinates is that of the cell that has them. -/
theorem lookup?_eq_some_iff :
    source.lookup? row col = some s ↔
      ∃ q : Cell, q.IsAt row col ∧ source.get? q.row q.col = some s := by
  rw [Guarded.lookup?_eq, Option.bind_eq_some_iff]
  constructor
  · rintro ⟨q, hq, hs⟩
    exact ⟨q, (cell?_eq_some_iff.1 hq).1, hs⟩
  · rintro ⟨q, hat, hs⟩
    exact ⟨q, cell?_eq_some_iff.2 ⟨hat, contains_of_get? hs⟩, hs⟩

/-- A paste obeys the rules for all cells of its source. -/
theorem pasted_paste (target source : Grid) (row col : Int) (bg : Color) :
    Pasted target source row col bg source.shape.cells (target.paste source row col bg) where
  shape_eq := rfl
  shown := by
    intro p q _ s hp hat hs hne
    rw [paste, get?_mapIdx, get?_eq_some hp.1 hp.2, lookup?_eq_some_iff.2 ⟨q, hat, hs⟩]
    exact congrArg some (if_neg hne)
  kept := by
    intro p hkeep
    rw [paste, get?_mapIdx]
    cases hlook : source.lookup? (p.row - row) (p.col - col) with
    | none => exact Option.map_id'
    | some s =>
      obtain ⟨q, hat, hs⟩ := lookup?_eq_some_iff.1 hlook
      have hbg : s = bg := hkeep q (Shape.mem_cells.2 (contains_of_get? hs)) s hat hs
      simp only [if_pos hbg, Option.map_id']

/-! ## Masks -/

/-- On a grid of the same shape, an overlay is a paste without offset, transparent where it is
zero. -/
theorem overlay_eq (h : target.shape = source.shape) :
    target.overlay source = .ok (target.paste source 0 0 0) := by
  rw [overlay, combine, dif_pos h, Except.ok.injEq]
  refine Pasted.unique ?_ (pasted_paste target source 0 0 0)
  -- without an offset, a cell lies on itself
  have hself : ∀ p q : Cell, q.IsAt (p.row - 0) (p.col - 0) ↔ q = p := by
    intro p q
    obtain ⟨r, c⟩ := p
    obtain ⟨r', c'⟩ := q
    simp only [Cell.IsAt, Cell.mk.injEq]
    omega
  constructor
  case shape_eq => rfl
  case shown =>
    intro p q _ s hp hat hs hne
    obtain rfl := (hself p q).1 hat
    rw [get?_zipWith, get?_eq_some hp.1 hp.2, hs]
    exact congrArg some (if_pos hne)
  case kept =>
    intro p hkeep
    rw [get?_zipWith]
    cases hx : target.get? p.row p.col with
    | none => rfl
    | some x =>
      have hp : source.shape.Contains p := h ▸ contains_of_get? hx
      have hs := get?_eq_some hp.1 hp.2
      have hzero := hkeep p (Shape.mem_cells.2 hp) _ ((hself p p).2 rfl) hs
      rw [hs, hzero]
      rfl

/-- Filling where a mask shows a color is recoloring it. -/
theorem fillMask_maskColor (g : Grid) (a b : Color) :
    g.fillMask (g.maskColor a) b = .ok (g.recolor a b) := by
  have hshape : g.shape = (g.maskColor a).shape := rfl
  rw [fillMask, combine, dif_pos hshape, Except.ok.injEq]
  refine ext_get? rfl fun r c => ?_
  rw [get?_zipWith, maskColor, recolor, get?_map, get?_map]
  cases g.get? r c with
  | none => rfl
  | some x =>
    refine congrArg some ?_
    by_cases hx : x = a
    · simp [hx]
    · simp [hx]

end Grid

/-! ## Pasting in a loop -/

namespace Guarded

variable {target source out : Grid} {row col : Int} {bg : Color} {done todo : List Cell}
  {p q : Cell}

/-- The cell of the target on which a cell of the source falls.  The coordinates are sums of
integers; there is no such cell when a sum is no integer, or lies outside. -/
def landing? (target : Grid) (row col : Int) (q : Cell) : Option Cell :=
  let r := row + wrapCount q.row
  let c := col + wrapCount q.col
  if (minInt ≤ r ∧ r ≤ maxInt) ∧ minInt ≤ c ∧ c ≤ maxInt then target.cell? r c else none

/-- One cell of the source laid over what has been pasted so far. -/
def lay (target source : Grid) (row col : Int) (bg : Color) (out : Grid) (q : Cell) :
    Except Fault Grid := do
  let s ← read source q.row q.col
  if s = bg then pure out
  else
    match landing? target row col q with
    | some p => write s out p
    | none => pure out

/-- All cells of the source laid over the target, row by row. -/
def layAll (target source : Grid) (row col : Int) (bg : Color) : Except Fault Grid :=
  source.shape.cells.foldlM (lay target source row col bg) target

/-- With stored grids, sums and conversions lead to the cell with the added coordinates. -/
theorem landing?_eq_some_iff (ht : target.Stored) (hs : source.Stored)
    (hq : source.shape.Contains q) :
    landing? target row col q = some p ↔
      q.IsAt (p.row - row) (p.col - col) ∧ target.shape.Contains p := by
  have hinside : q.row < source.height ∧ q.col < source.width := hq
  have hsource : (source.height : Int) ≤ maxInt ∧ (source.width : Int) ≤ maxInt :=
    ⟨hs.height_le, hs.width_le⟩
  have htarget : (target.height : Int) ≤ maxInt ∧ (target.width : Int) ≤ maxInt :=
    ⟨ht.height_le, ht.width_le⟩
  have hrow : wrapCount q.row = q.row := wrapCount_of_le (by omega)
  have hcol : wrapCount q.col = q.col := wrapCount_of_le (by omega)
  simp only [landing?, hrow, hcol, Option.ite_none_right_eq_some, Grid.cell?_eq_some_iff]
  simp only [Cell.IsAt, Shape.Contains, Grid.shape, minInt, maxInt] at *
  omega

/-- Writing to a cell of a grid paints it. -/
theorem exists_write (hp : out.shape.Contains p) (s : Color) :
    ∃ out', write s out p = .ok out' ∧ out.Paints (· = p) s out' := by
  refine ⟨_, if_pos hp, (Grid.paints_mapIdx out s _).congr fun p' _ => ?_⟩
  obtain ⟨r, c⟩ := p
  obtain ⟨r', c'⟩ := p'
  rw [Cell.mk.injEq]

/-- **A step of the loop.**  No guard is hit, and one more cell is pasted. -/
theorem pasted_lay (ht : target.Stored) (hs : source.Stored) (hq : source.shape.Contains q)
    (h : Grid.Pasted target source row col bg done out) :
    ∃ out', lay target source row col bg out q = .ok out' ∧
      Grid.Pasted target source row col bg (done ++ [q]) out' := by
  obtain ⟨s, hread, hcolor⟩ : ∃ s, read source q.row q.col = .ok s ∧
      source.get? q.row q.col = some s := ⟨_, dif_pos hq, Grid.get?_eq_some hq.1 hq.2⟩
  by_cases hbg : s = bg
  · refine ⟨out, ?_, h.skip fun p s' _ _ hs' => ?_⟩
    · rw [lay, hread, ok_bind, if_pos hbg]
      rfl
    · rw [hcolor, Option.some.injEq] at hs'
      exact hs' ▸ hbg
  · cases hland : landing? target row col q with
    | none =>
      refine ⟨out, ?_, h.skip fun p _ hp hat _ => ?_⟩
      · rw [lay, hread, ok_bind, if_neg hbg, hland]
        rfl
      · rw [(landing?_eq_some_iff ht hs hq).2 ⟨hat, hp⟩] at hland
        cases hland
    | some p =>
      obtain ⟨hat, hp⟩ := (landing?_eq_some_iff ht hs hq).1 hland
      obtain ⟨out', hwrite, hpaint⟩ := exists_write (h.shape_eq ▸ hp) s
      refine ⟨out', ?_, h.paint hat hcolor hbg hpaint⟩
      rw [lay, hread, ok_bind, if_neg hbg, hland]
      exact hwrite

/-- The loop over the rest of the cells ends, and pastes them too. -/
theorem pasted_foldlM (ht : target.Stored) (hs : source.Stored)
    (htodo : ∀ q ∈ todo, source.shape.Contains q)
    (h : Grid.Pasted target source row col bg done out) :
    ∃ out', todo.foldlM (lay target source row col bg) out = .ok out' ∧
      Grid.Pasted target source row col bg (done ++ todo) out' := by
  induction todo generalizing done out with
  | nil =>
    rw [List.append_nil]
    exact ⟨out, rfl, h⟩
  | cons q todo ih =>
    obtain ⟨next, hlay, hnext⟩ := pasted_lay ht hs (htodo q List.mem_cons_self) h
    obtain ⟨out', hrest, hout⟩ := ih (fun r hr => htodo r (List.mem_cons_of_mem q hr)) hnext
    refine ⟨out', ?_, List.append_cons done q todo ▸ hout⟩
    rw [List.foldlM_cons, hlay, ok_bind]
    exact hrest

/-- The loop gives the paste. -/
theorem layAll_eq (ht : target.Stored) (hs : source.Stored) (row col : Int) (bg : Color) :
    layAll target source row col bg = .ok (target.paste source row col bg) := by
  have hstart : Grid.Pasted target source row col bg [] target := ⟨rfl, nofun, fun _ _ => rfl⟩
  obtain ⟨out, hloop, hout⟩ := pasted_foldlM ht hs (fun q hq => Shape.mem_cells.1 hq) hstart
  rw [layAll, hloop, hout.unique (Grid.pasted_paste target source row col bg)]

end Guarded

namespace Grid

/-- **Pasting is exact, and painting through masks agrees with it.**  A paste shows the cells of its
source that are not of the background color where they fall on the target, and keeps all others; the
loop over the source, with guarded access and sums within the range of integers, gives the same.  An
overlay is a paste without offset and with the background zero if the shapes agree, and a shape
mismatch if they do not; and filling where the mask of a color shows it is recoloring it. -/
theorem paste_exact {target source : Grid} (ht : target.Stored) (hs : source.Stored)
    (row col : Int) (bg : Color) :
    Pasted target source row col bg source.shape.cells (target.paste source row col bg) ∧
    Guarded.layAll target source row col bg = .ok (target.paste source row col bg) ∧
    (target.shape = source.shape →
      target.overlay source = .ok (target.paste source 0 0 0)) ∧
    (target.shape ≠ source.shape →
      target.overlay source =
        .error (.shapeMismatch "overlay" target.shape source.shape)) ∧
    ∀ a b, target.fillMask (target.maskColor a) b = .ok (target.recolor a b) :=
  ⟨pasted_paste target source row col bg, Guarded.layAll_eq ht hs row col bg, overlay_eq,
    fun h => dif_neg h, fillMask_maskColor target⟩

/-- A source that begins above and ends to the right of its target, of which one cell is transparent
and one is shown; one that lies as far down as an integer can say, of which none is; and an
overlay. -/
theorem paste_exact_corner :
    let target : Grid := ⟨2, 2, #[1, 2, 3, 4], rfl⟩
    let source : Grid := ⟨2, 2, #[7, 0, 8, 9], rfl⟩
    (∃ out, Guarded.layAll target source (-1) 1 0 = .ok out ∧
      out.cells = #[1, 8, 3, 4] ∧ out.get? 0 1 = source.get? 1 0 ∧
      out.get? 1 1 = target.get? 1 1) ∧
    Guarded.layAll target source maxInt 0 0 = .ok target ∧
    (∃ out, target.overlay source = .ok out ∧ out.cells = #[7, 2, 8, 9]) ∧
    fault? (target.overlay (dot 1)) = some (.shapeMismatch "overlay" ⟨2, 2⟩ ⟨1, 1⟩) := by
  intro target source
  have ht : target.Stored := ⟨by decide, by decide⟩
  have hs : source.Stored := ⟨by decide, by decide⟩
  have hdot : (dot 1).Stored := ⟨by decide, by decide⟩
  obtain ⟨hpasted, hloop, hoverlay, -⟩ := paste_exact ht hs (-1) 1 0
  have hbelow : target.paste source maxInt 0 0 = target := by decide +kernel
  refine ⟨⟨_, hloop, by decide +kernel, ?_, ?_⟩, ?_, ⟨_, hoverlay rfl, by decide +kernel⟩, ?_⟩
  · have hq : (⟨1, 0⟩ : Cell) ∈ source.shape.cells := by decide
    exact hpasted.shown ⟨0, 1⟩ ⟨1, 0⟩ hq 8 (by decide) ⟨rfl, rfl⟩ rfl (by decide)
  · refine hpasted.kept ⟨1, 1⟩ fun q hq s hat hcolor => ?_
    -- the cell below the last row of the source lies on it
    have hrow : (q.row : Int) = 2 := hat.1
    have hinside : q.row < 2 := (Shape.mem_cells.1 hq).1
    omega
  · rw [(paste_exact ht hs maxInt 0 0).2.1, hbelow]
  · rw [(paste_exact ht hdot 0 0 0).2.2.2.1 (by decide)]
    rfl

end Grid

end GridRepair
