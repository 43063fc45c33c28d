/-
# Regions and windows with guarded access

The search for a region and what is built on it, over the guarded access of `Guarded`.  The search
has a guard of its own: a queued cell for which no fuel is left.  Its invariant (`Grid.Spreading`)
keeps the queued cells inside the grid and the fuel sufficient, so the region is found without a
breach, and the box around it is within the grid.  The loop of a fill has the same guard and goes
the way of that search (`Grid.repaint_painted`).

Windows are cut under such boxes.
-/
import GridRepair.Proofs.Objects
import GridRepair.Proofs.Operations

namespace GridRepair

namespace Guarded

open Grid (Spreading)

variable {limit : Nat} {g : Grid} {color : Color}

/-! ## Regions -/

/-- The search for a region.  A listed cell that no fuel is left for is a breach. -/
def spread (g : Grid) (color : Color) :
    Nat → List Cell → Marks → List Cell → Except Fault (List Cell × Marks)
  | _, [], seen, region => pure (region, seen)
  | 0, _ :: _, _, _ => .error (.breach .grid)
  | fuel + 1, p :: todo, seen, region => do
    let next ← select g (fun q x => x == color && !seen.has q) (g.shape.neighbors p)
    spread g color fuel (todo ++ next) (seen.addAll next) (p :: region)

/-- The loop of a fill over its buffer.  A queued cell that no fuel is left for is a breach. -/
def repaint (old color : Color) : Nat → List Cell → Grid → Except Fault Grid
  | _, [], out => pure out
  | 0, _ :: _, _ => .error (.breach .grid)
  | fuel + 1, p :: todo, out => do
    let next ← select out (fun _ x => x == old) (out.shape.neighbors p)
    let painted ← next.foldlM (write color) out
    repaint old color fuel (todo ++ next) painted

/-- The region of a cell among the unmarked cells, and all marks after the search. -/
def region (g : Grid) (color : Color) (start : Cell) (seen : Marks) :
    Except Fault (List Cell × Marks) :=
  spread g color g.shape.area [start] (seen.add start) []

/-- The region of a cell in another color. -/
def floodFill (g : Grid) (row col : Int) (color : Color) : Except Fault Grid :=
  match g.cell? row col with
  | none => pure g
  | some start => do
    let old ← read g start.row start.col
    if old = color then pure g
    else do
      let first ← write color g start
      let out ← repaint old color g.shape.area [start] first
      fromColors out.height out.width out.cells.toList

/-- The objects whose first cell is in the list and not yet marked. -/
def sweep (g : Grid) (bg : Color) : List Cell → Marks → Except Fault (List Object)
  | [], _ => pure []
  | p :: ps, seen => do
    let color ← read g p.row p.col
    if color = bg ∨ seen.has p = true then sweep g bg ps seen
    else do
      let found ← region g color p seen
      let rest ← sweep g bg ps found.2
      pure (⟨color, Box.around p found.1, found.1.length⟩ :: rest)

/-- The guard on the fuel of a search is not hit. -/
theorem spread_eq (hg : g.Sound limit) {before seen : Marks} {todo region : List Cell}
    (h : Spreading g before todo seen region) {fuel : Nat}
    (hfuel : g.shape.area ≤ region.length + fuel) :
    spread g color fuel todo seen region = .ok (g.spread color fuel todo seen region) := by
  induction fuel generalizing todo seen region with
  | zero =>
    obtain rfl := h.eq_nil hfuel
    rfl
  | succ fuel ih =>
    cases todo with
    | nil => rfl
    | cons p todo =>
      have hneighbors : ∀ q ∈ g.shape.neighbors p, g.shape.Contains q := fun q hq =>
        ((Shape.mem_neighbors h.contains_head).1 hq).1
      have hnext := guards_select hg (fun q x => x == color && !seen.has q)
        (fun q => g.get? q.row q.col == some color && !seen.has q) hneighbors
        fun q _ x hx => by rw [hx]; rfl
      rw [spread, hnext.eq, ok_bind]
      exact ih h.visit (by rw [List.length_cons]; omega)

theorem guards_region (hg : g.Sound limit) {before : Marks} (hshape : before.shape = g.shape)
    {p : Cell} (hp : g.shape.Contains p) :
    Guards (fun found => Spreading g before [] found.2 found.1) (region g color p before)
      (.ok (g.region color p before)) := by
  rw [region, spread_eq hg (Spreading.start hshape hp) (Nat.le_add_left _ _)]
  exact .ok (Grid.spreading_region hshape hp)

/-- The guard on the fuel of a fill is not hit, since its loop goes the way of the search with
marks. -/
theorem repaint_eq (hg : g.Sound limit) (hcolor : color ≤ maxColor) {before seen : Marks}
    {todo region : List Cell} (h : Spreading g before todo seen region) {old : Color}
    (hne : old ≠ color) {fuel : Nat} (hfuel : g.shape.area ≤ region.length + fuel) :
    repaint old color fuel todo (g.painted color seen) =
      .ok (Grid.repaint old color fuel todo (g.painted color seen)) := by
  induction fuel generalizing todo seen region with
  | zero =>
    obtain rfl := h.eq_nil hfuel
    rfl
  | succ fuel ih =>
    cases todo with
    | nil => rfl
    | cons p todo =>
      have hneighbors : ∀ q ∈ g.shape.neighbors p, g.shape.Contains q := fun q hq =>
        ((Shape.mem_neighbors h.contains_head).1 hq).1
      have hnext : ∀ q ∈ g.entering old seen p, (g.painted color seen).shape.Contains q :=
        fun q hq => (Grid.of_mem_entering h.contains_head hq).1
      have hselect : select (g.painted color seen) (fun _ x => x == old)
          ((g.painted color seen).shape.neighbors p) =
            .ok ((g.painted color seen).unpainted old p) :=
        (guards_select (sound_painted hg hcolor seen) (fun _ x => x == old)
          (fun q => (g.painted color seen).get? q.row q.col == some old) hneighbors
          fun q _ x hx => by rw [hx]; rfl).eq
      rw [repaint, Grid.repaint, hselect, ok_bind, Grid.unpainted_painted hne,
        foldlM_write hnext, ok_bind, Grid.putAll_painted h.shape_eq hnext]
      exact ih h.visit (by rw [List.length_cons]; omega)

theorem guards_floodFill (hg : g.Sound limit) (hcolor : color ≤ maxColor) (row col : Int) :
    Guards (Grid.Sound limit) (floodFill g row col color) (.ok (g.floodFill row col color)) := by
  rw [floodFill, Grid.floodFill]
  cases hcell : g.cell? row col with
  | none => exact .ok hg
  | some start =>
    have hstart := contains_of_cell? hcell
    have hsearch : Spreading g (Marks.none g.shape) [start] ((Marks.none g.shape).add start) [] :=
      Spreading.start rfl hstart
    dsimp only
    rw [Grid.get?_eq_some hstart.1 hstart.2]
    refine (guards_read hg hstart.1 hstart.2).bind_ok fun _ => ?_
    dsimp only
    split
    case isTrue => exact .ok hg
    case isFalse hne =>
      rw [write_eq hstart, ok_bind, Grid.put_eq_painted hstart,
        repaint_eq hg hcolor hsearch hne (Nat.le_add_left _ _), ok_bind,
        Grid.repaint_painted hsearch hne]
      exact guards_fromColors (sound_painted hg hcolor _) rfl

end Guarded

/-! ## Boxes -/

/-- A box that covers a cell, and only cells of the shape. -/
structure Box.Within (s : Shape) (b : Box) : Prop where
  fits : b.fits s = true
  height_pos : 0 < b.height
  width_pos : 0 < b.width

/-- The box around cells of a shape is within the shape. -/
theorem Box.within_around {s : Shape} {p : Cell} {ps : List Cell} (hp : s.Contains p)
    (hps : ∀ q ∈ ps, s.Contains q) : (Box.around p ps).Within s where
  fits := (Box.tight_around p ps).fits (List.forall_mem_cons.2 ⟨hp, hps⟩)
  height_pos := Nat.succ_pos _
  width_pos := Nat.succ_pos _

/-- The smallest box that covers cells of the shape, if there is one. -/
theorem Box.within_hull {s : Shape} {ps : List Cell} (hps : ∀ q ∈ ps, s.Contains q) {b : Box}
    (hb : b ∈ Box.hull ps) : b.Within s := by
  cases ps with
  | nil => cases hb
  | cons p ps =>
    cases hb
    exact within_around (hps p List.mem_cons_self) fun q hq => hps q (List.mem_cons_of_mem p hq)

namespace Guarded

variable {limit : Nat} {g : Grid} {bg : Color}

theorem guards_sweep (hg : g.Sound limit) {ps : List Cell} (hps : ∀ p ∈ ps, g.shape.Contains p)
    {seen : Marks} (hshape : seen.shape = g.shape) :
    Guards (fun os => ∀ o ∈ os, o.box.Within g.shape) (sweep g bg ps seen)
      (.ok (g.sweep bg ps seen)) := by
  induction ps generalizing seen with
  | nil => exact .ok nofun
  | cons p ps ih =>
    have hp := hps p List.mem_cons_self
    have hrest : ∀ q ∈ ps, g.shape.Contains q := fun q hq => hps q (List.mem_cons_of_mem p hq)
    rw [sweep, Grid.sweep, Grid.get?_eq_some hp.1 hp.2]
    refine (guards_read hg hp.1 hp.2).bind_ok fun _ => ?_
    dsimp only
    split
    case isTrue => exact ih hrest hshape
    case isFalse =>
      refine (guards_region hg hshape hp).bind_ok fun hfound => ?_
      refine (ih hrest hfound.shape_eq).bind_ok fun hobjects => ?_
      refine .ok fun o ho => ?_
      rcases List.mem_cons.1 ho with rfl | ho
      · exact Box.within_around hp hfound.contains
      · exact hobjects o ho

/-! ## Windows -/

/-- The part of the grid under a box. -/
def window (g : Grid) (b : Box) : Except Fault Grid :=
  build b.height b.width fun r c => read g (b.row + r) (b.col + c)

/-- The part of the grid under a box; without a box, one background cell. -/
def windowOr (g : Grid) (bg : Color) : Option Box → Except Fault Grid
  | some b => window g b
  | none => fromColors 1 1 [bg]

/-- The grid cut down to its content. -/
def cropToContent (g : Grid) (bg : Color) : Except Fault Grid := do
  let content ← select g (fun _ x => x != bg) g.shape.cells
  windowOr g bg (Box.hull content)

/-- The grid cut down to its largest object. -/
def cropLargestObject (g : Grid) (bg : Color) : Except Fault Grid := do
  let objects ← sweep g bg g.shape.cells (Marks.none g.shape)
  windowOr g bg ((Grid.largest? objects).map Object.box)

theorem guards_window (hg : g.Sound limit) {b : Box} (hb : b.Within g.shape) :
    Guards (Grid.Sound limit) (window g b) (.ok (g.window b hb.fits)) := by
  have hfits := Box.fits_iff.1 hb.fits
  have hheight : b.height ≤ limit :=
    (Nat.le_add_left _ _).trans (hfits.1.trans hg.height_le)
  have hwidth : b.width ≤ limit :=
    (Nat.le_add_left _ _).trans (hfits.2.trans hg.width_le)
  exact guards_build ⟨hb.height_pos, hheight⟩ ⟨hb.width_pos, hwidth⟩ fun r c hr hc =>
    guards_read hg ((Nat.add_lt_add_left hr _).trans_le hfits.1)
      ((Nat.add_lt_add_left hc _).trans_le hfits.2)

theorem guards_windowOr (hg : g.Sound limit) (hbg : bg ≤ maxColor) {b : Option Box}
    (hb : ∀ box ∈ b, box.Within g.shape) :
    Guards (Grid.Sound limit) (windowOr g bg b) (.ok (g.windowOr bg b)) := by
  cases b with
  | none =>
    have hone : 0 < 1 ∧ 1 ≤ limit := ⟨Nat.one_pos, hg.height_pos.trans_le hg.height_le⟩
    exact guards_fromColors (Grid.sound_ofFn hone hone fun _ _ _ _ => hbg) rfl
  | some box =>
    have hwithin := hb box rfl
    rw [Grid.windowOr, Option.bind_some, Grid.window?, dif_pos hwithin.fits]
    exact guards_window hg hwithin

theorem guards_cropToContent (hg : g.Sound limit) (hbg : bg ≤ maxColor) :
    Guards (Grid.Sound limit) (cropToContent g bg) (.ok (g.cropToContent bg)) := by
  have hcontent := guards_select hg (fun _ x => x != bg)
    (fun p => g.get? p.row p.col != some bg) (fun p hp => Shape.mem_cells.1 hp)
    fun p _ x hx => by rw [hx]; rfl
  exact hcontent.bind_ok fun hinside => guards_windowOr hg hbg fun _ hbox =>
    Box.within_hull hinside hbox

theorem guards_cropLargestObject (hg : g.Sound limit) (hbg : bg ≤ maxColor) :
    Guards (Grid.Sound limit) (cropLargestObject g bg) (.ok (g.cropLargestObject bg)) := by
  refine (guards_sweep hg (fun p hp => Shape.mem_cells.1 hp) rfl).bind_ok fun hobjects => ?_
  refine guards_windowOr hg hbg fun box hbox => ?_
  obtain ⟨o, ho, rfl⟩ := Option.map_eq_some_iff.1 hbox
  exact hobjects o (Grid.mem_of_largest? ho)

end Guarded

end GridRepair
