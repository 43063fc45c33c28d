/-
# The region search

`Grid.spread` visits the listed cells one by one and lists their unmarked neighbors of the color.
One invariant carries it, `Spreading`: the cells that are listed or visited are distinct cells of
the grid, and they and the cells that were marked at the start are the marked ones.  A visit keeps
it (`Spreading.visit`).

Distinct cells are at most as many as the grid has (`Spreading.length_le`), so a search with a unit
of fuel for every cell never stops before its list is empty (`Spreading.spread`).  The region of a
cell is therefore a list of distinct cells, and the marks after the search are exact
(`spreading_region`).

Marks are also what connects a list of cells that are overwritten one after another with the grid that
comes out, in which the marked cells are painted over (`putAll_painted`).
-/
import Mathlib.Data.List.FinRange
import Mathlib.Data.List.Perm.Subperm
import GridRepair.Region

namespace GridRepair

/-! ## The cells of a shape -/

namespace Shape

variable {s : Shape}

/-- The cells of a row. -/
theorem row_eq_ofFn {h w : Nat} (r : Fin h) : ((List.range w).map fun c => (⟨r, c⟩ : Cell)) =
    List.ofFn fun c : Fin w => ⟨(r * w + c) / w, (r * w + c) % w⟩ := by
  rw [← List.map_coe_finRange_eq_range, List.map_map, List.ofFn_eq_map]
  refine List.map_congr_left fun c _ => ?_
  rw [Function.comp, Grid.index_div c.isLt, Grid.index_mod c.isLt]

/-- The cells are listed in the order of their positions. -/
theorem cells_eq_ofFn (s : Shape) : s.cells =
    List.ofFn fun i : Fin (s.height * s.width) => ⟨i / s.width, i % s.width⟩ := by
  rw [List.ofFn_mul, cells, List.flatMap, ← List.map_coe_finRange_eq_range (n := s.height),
    List.map_map, List.ofFn_eq_map]
  exact congrArg List.flatten (List.map_congr_left fun r _ => row_eq_ofFn r)

/-- A shape has as many cells as its area says. -/
theorem length_cells (s : Shape) : s.cells.length = s.area := by
  rw [cells_eq_ofFn, List.length_ofFn, area]

/-- Distinct cells of a shape are at most as many as its cells. -/
theorem length_le_area {ps : List Cell} (hnodup : ps.Nodup) (h : ∀ p ∈ ps, s.Contains p) :
    ps.length ≤ s.area := by
  rw [← length_cells]
  exact hnodup.length_le_of_subset fun p hp => mem_cells.2 (h p hp)

/-- The neighbors of a cell are distinct. -/
theorem nodup_neighbors (s : Shape) (p : Cell) : (s.neighbors p).Nodup := by
  rw [neighbors]
  split <;> split <;> split <;> split <;> simp <;> omega

end Shape

/-! ## Marking -/

namespace Marks

/-- Marking a list of cells keeps the shape. -/
@[simp] theorem shape_addAll (m : Marks) (ps : List Cell) : (m.addAll ps).shape = m.shape := by
  induction ps generalizing m with
  | nil => rfl
  | cons p ps ih => exact (ih (m.add p)).trans (shape_add m p)

/-- After marking a list of cells, a cell is marked when it is one of them or was marked before. -/
theorem has_addAll {m : Marks} {ps : List Cell} (h : ∀ p ∈ ps, m.shape.Contains p) (q : Cell) :
    (m.addAll ps).has q = true ↔ q ∈ ps ∨ m.has q = true := by
  induction ps generalizing m with
  | nil => simp [addAll]
  | cons p ps ih =>
    have hrest : ∀ r ∈ ps, (m.add p).shape.Contains r := fun r hr => by
      rw [shape_add]
      exact h r (List.mem_cons_of_mem p hr)
    rw [addAll, List.foldl_cons, ← addAll, ih hrest, has_add (h p List.mem_cons_self),
      Bool.or_eq_true, decide_eq_true_eq, List.mem_cons]
    tauto

end Marks

/-! ## Painting -/

namespace Grid

variable {g : Grid} {color : Color} {before seen : Marks} {todo region : List Cell} {p : Cell}

/-- The marked cells of a grid in one color. -/
def painted (g : Grid) (color : Color) (seen : Marks) : Grid :=
  g.mapIdx fun r c x => if seen.has ⟨r, c⟩ then color else x

theorem get?_painted (g : Grid) (color : Color) (seen : Marks) (p : Cell) :
    (g.painted color seen).get? p.row p.col =
      (g.get? p.row p.col).map fun x => if seen.has p then color else x :=
  get?_mapIdx g _ p.row p.col

/-- With nothing marked, nothing is painted. -/
theorem painted_none (g : Grid) (color : Color) : g.painted color (Marks.none g.shape) = g :=
  ext_get? rfl fun r c => by simp [painted, get?_mapIdx]

/-- Overwriting a cell paints one cell more. -/
theorem put_painted (hshape : seen.shape = g.shape) (hp : g.shape.Contains p) :
    (g.painted color seen).put p color = g.painted color (seen.add p) := by
  have hinside : (g.painted color seen).shape.Contains p := hp
  have hview : ∀ q : Cell, ((g.painted color seen).put p color).get? q.row q.col =
      (g.painted color (seen.add p)).get? q.row q.col := by
    intro q
    rw [get?_put hinside, get?_painted, get?_painted, Marks.has_add (hshape ▸ hp)]
    by_cases hsame : q = p
    · rw [hsame, get?_eq_some hp.1 hp.2]
      simp
    · simp [hsame]
  exact ext_get? (shape_put _ _ _) fun r c => hview ⟨r, c⟩

/-- Overwriting a list of cells paints all of them. -/
theorem putAll_painted {ps : List Cell} (hshape : seen.shape = g.shape)
    (hps : ∀ p ∈ ps, g.shape.Contains p) :
    (g.painted color seen).putAll ps color = g.painted color (seen.addAll ps) := by
  induction ps generalizing seen with
  | nil => rfl
  | cons p ps ih =>
    rw [putAll, List.foldl_cons, put_painted hshape (hps p List.mem_cons_self), ← putAll,
      ih ((Marks.shape_add seen p).trans hshape) fun q hq => hps q (List.mem_cons_of_mem p hq)]
    rfl

/-- Overwriting a list of cells paints the cells of the list. -/
theorem putAll_eq_painted {ps : List Cell} (hps : ∀ p ∈ ps, g.shape.Contains p) :
    g.putAll ps color = g.painted color ((Marks.none g.shape).addAll ps) := by
  rw [← putAll_painted rfl hps, painted_none]

/-! ## The invariant -/

/-- The state of a search that began with some cells marked: the cells still to be visited, the
marks and the visited cells. -/
structure Spreading (g : Grid) (before : Marks) (todo : List Cell) (seen : Marks)
    (region : List Cell) : Prop where
  shape_eq : seen.shape = g.shape
  nodup : (todo ++ region).Nodup
  contains : ∀ p ∈ todo ++ region, g.shape.Contains p
  has_iff : ∀ p, seen.has p = true ↔ p ∈ todo ++ region ∨ before.has p = true

/-- The cells that enter are unmarked cells of the grid. -/
theorem of_mem_entering (hp : g.shape.Contains p) {q : Cell} (hq : q ∈ g.entering color seen p) :
    g.shape.Contains q ∧ seen.has q = false := by
  rw [entering, List.mem_filter, Bool.and_eq_true, Bool.not_eq_true'] at hq
  exact ⟨((Shape.mem_neighbors hp).1 hq.1).1, hq.2.2⟩

namespace Spreading

/-- At first one unmarked cell is listed. -/
theorem start (hshape : before.shape = g.shape) (hp : g.shape.Contains p) :
    Spreading g before [p] (before.add p) [] where
  shape_eq := (Marks.shape_add before p).trans hshape
  nodup := List.nodup_singleton p
  contains := by simpa using hp
  has_iff q := by
    rw [Marks.has_add (hshape ▸ hp)]
    simp

/-- The first listed cell is a cell of the grid. -/
theorem contains_head (h : Spreading g before (p :: todo) seen region) : g.shape.Contains p :=
  h.contains p List.mem_cons_self

/-- A visit moves one cell to the visited ones and lists new cells, which it marks. -/
theorem visit (h : Spreading g before (p :: todo) seen region) :
    Spreading g before (todo ++ g.entering color seen p) (seen.addAll (g.entering color seen p))
      (p :: region) := by
  have hnew : ∀ q ∈ g.entering color seen p, g.shape.Contains q ∧ seen.has q = false :=
    fun q hq => of_mem_entering h.contains_head hq
  -- the listed and visited cells are those of before together with the new ones
  have hperm : (todo ++ g.entering color seen p ++ p :: region).Perm
      (g.entering color seen p ++ (p :: todo ++ region)) := by
    refine (List.perm_append_comm.append_right _).trans ?_
    rw [List.append_assoc]
    exact List.perm_middle.append_left _
  constructor
  case shape_eq => exact (Marks.shape_addAll _ _).trans h.shape_eq
  case nodup =>
    rw [hperm.nodup_iff, List.nodup_append']
    refine ⟨(g.shape.nodup_neighbors p).filter _, h.nodup, fun q hq hold => ?_⟩
    have hmarked := (h.has_iff q).2 (.inl hold)
    rw [(hnew q hq).2] at hmarked
    cases hmarked
  case contains =>
    intro q hq
    rw [hperm.mem_iff, List.mem_append] at hq
    exact hq.elim (fun hq => (hnew q hq).1) (h.contains q)
  case has_iff =>
    intro q
    rw [Marks.has_addAll (fun q hq => h.shape_eq ▸ (hnew q hq).1), h.has_iff, hperm.mem_iff,
      List.mem_append (s := g.entering color seen p), or_assoc]

/-- A search lists and visits at most as many cells as the grid has. -/
theorem length_le (h : Spreading g before todo seen region) :
    todo.length + region.length ≤ g.shape.area := by
  rw [← List.length_append]
  exact Shape.length_le_area h.nodup h.contains

/-- When as many cells are visited as the grid has, no cell is listed. -/
theorem eq_nil (h : Spreading g before todo seen region)
    (hfull : g.shape.area ≤ region.length) : todo = [] := by
  have hlength := h.length_le
  exact List.length_eq_zero_iff.1 (by omega)

/-- With a unit of fuel for every cell that is not yet visited, the search goes on until no cell is
listed. -/
theorem spread (h : Spreading g before todo seen region) {fuel : Nat}
    (hfuel : g.shape.area ≤ region.length + fuel) :
    Spreading g before [] (g.spread color fuel todo seen region).2
      (g.spread color fuel todo seen region).1 := by
  induction fuel generalizing todo seen region with
  | zero =>
    rw [Grid.spread]
    exact h.eq_nil hfuel ▸ h
  | succ fuel ih =>
    cases todo with
    | nil => exact h
    | cons p todo => exact ih h.visit (by rw [List.length_cons]; omega)

end Spreading

/-- The region of a cell is a list of distinct cells of the grid, and the search for it marks them
and no others. -/
theorem spreading_region (hshape : before.shape = g.shape) (hp : g.shape.Contains p) :
    Spreading g before [] (g.region color p before).2 (g.region color p before).1 :=
  (Spreading.start hshape hp).spread (Nat.le_add_left _ _)

end Grid

end GridRepair
