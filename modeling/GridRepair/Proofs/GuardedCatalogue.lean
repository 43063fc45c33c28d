/-
# The catalogue with guarded access

The primitives of the catalogue with runs over guarded access: names, parameters and costs are those
of the catalogue, and only the run is another one (`Guarded.primitives`).  On sound grids and
arguments it gives what the run of the catalogue gives (`Primitive.GuardedBy`).

Registering primitives keeps this relation, so a name that is looked up in both registries is
missing in both, or names two primitives that are related (`find_cases`); their applications agree
(`guards_apply`).
-/
import Mathlib.Data.List.Forall2
import GridRepair.Proofs.Searches
import GridRepair.Proofs.Typing

namespace GridRepair

/-! ## Sound arguments -/

/-- A value that is a sound grid, or no grid. -/
def Value.Sound (limit : Nat) : Value → Prop
  | .grid g => g.Sound limit
  | _ => True

theorem Value.sound_iff {limit : Nat} {v : Value} :
    v.Sound limit ↔ ∀ m ∈ v.grid?, m.Sound limit := by
  cases v <;> simp [Value.Sound, Value.grid?]

/-- What a primitive is run on: a sound grid and sound arguments, with the sides of scaled and tiled
grids within the limit. -/
structure Runnable (limit : Nat) (g : Grid) (a : Args) : Prop where
  maxSide_le : maxSide ≤ limit
  grid : g.Sound limit
  values : ∀ v ∈ a.values, v.Sound limit

variable {limit : Nat} {g : Grid} {a : Args}

theorem guards_int (a : Args) (index : Nat) :
    Guards (fun _ => True) (a.int index) (a.int index) := by
  rw [Args.int]
  split
  · exact .ok trivial
  · exact .error nofun

theorem guards_color (a : Args) (index : Nat) :
    Guards (· ≤ maxColor) (a.color index) (a.color index) := by
  refine (guards_int a index).bind fun n _ => ?_
  rw [Grid.color?]
  split
  · next hrange => exact .ok (Int.toNat_le.2 hrange.2)
  · exact .error nofun

theorem guards_count (a : Args) (index : Nat) :
    Guards (fun _ => True) (a.count index) (a.count index) := by
  refine (guards_int a index).bind fun n _ => ?_
  split
  · exact .ok trivial
  · exact .error nofun

theorem guards_grid (h : Runnable limit g a) (index : Nat) :
    Guards (Grid.Sound limit) (a.grid index) (a.grid index) := by
  rw [Args.grid]
  split
  · next m hm =>
    obtain ⟨v, hv, hgrid⟩ := Option.bind_eq_some_iff.1 hm
    exact .ok (Value.sound_iff.1 (h.values v (List.mem_of_getElem? hv)) m hgrid)
  · exact .error nofun

/-! ## Runs -/

/-- What a primitive does with a grid and its arguments. -/
abbrev Run := Grid → Args → Except Fault Value

namespace Guarded

/-- A run whose result is a grid. -/
def onGrids (run : Grid → Args → Except Fault Grid) : Run := fun g a => (run g a).map .grid

/-- Symmetries and crops. -/
def spatial : List Run :=
  [ onGrids fun g _ => pure g,
    onGrids fun g a => do rotate g (← a.int 0),
    onGrids fun g _ => reflectH g,
    onGrids fun g _ => reflectV g,
    onGrids fun g _ => transpose g,
    onGrids fun g a => do cropToContent g (← a.color 0),
    onGrids fun g a => do cropLargestObject g (← a.color 0) ]

/-- Scaling and tiling. -/
def tiling : List Run :=
  [ onGrids fun g a => do scale g (← a.count 0),
    onGrids fun g a => do tileH g (← a.count 0),
    onGrids fun g a => do tileV g (← a.count 0),
    onGrids fun g a => do
      let rows ← a.count 0
      let cols ← a.count 1
      tileRepeat g rows cols,
    onGrids fun g a => do
      let height ← a.count 0
      let width ← a.count 1
      tileToSize g height width ]

/-- Pasting, recoloring and masks. -/
def coloring : List Run :=
  [ onGrids fun g a => do
      let source ← a.grid 0
      let row ← a.int 1
      let col ← a.int 2
      let bg ← a.color 3
      paste g source row col bg,
    onGrids fun g a => do
      let row ← a.int 0
      let col ← a.int 1
      let color ← a.color 2
      floodFill g row col color,
    onGrids fun g a => do
      let mask ← a.grid 0
      let color ← a.color 1
      combine "fill_mask" (fun x m => if m ≠ 0 then color else x) g mask,
    onGrids fun g a => do
      let source ← a.color 0
      let target ← a.color 1
      map g fun x => if x = source then target else x,
    onGrids fun g a => do
      let source ← a.grid 0
      combine "overlay" (fun x s => if s ≠ 0 then s else x) g source,
    onGrids fun g a => do
      let color ← a.color 0
      map g fun x => if x = color then 1 else 0,
    onGrids fun g a => do
      let mask ← a.grid 0
      let bg ← a.color 1
      combine "apply_mask" (fun x m => if m ≠ 0 then x else bg) g mask ]

/-- Strokes and rectangles. -/
def drawing : List Run :=
  [ onGrids fun g a => do
      let row ← a.int 0
      let col ← a.int 1
      let length ← a.count 2
      let color ← a.color 3
      drawRect g row col 1 length color,
    onGrids fun g a => do
      let row ← a.int 0
      let col ← a.int 1
      let length ← a.count 2
      let color ← a.color 3
      drawRect g row col length 1 color,
    onGrids fun g a => do
      let row ← a.int 0
      let col ← a.int 1
      let height ← a.count 2
      let width ← a.count 3
      let color ← a.color 4
      drawRect g row col height width color,
    onGrids fun g a => do
      let row ← a.int 0
      let col ← a.int 1
      let height ← a.count 2
      let width ← a.count 3
      let color ← a.color 4
      drawRectOutline g row col height width color ]

/-- Questions about a grid.  All but the first one go through the stored colors without asking for
a cell. -/
def queries : List Run :=
  [ fun g a => do
      let color ← a.color 0
      let ps ← select g (fun _ x => x == color) g.shape.cells
      pure (.positions ps),
    fun g a => do pure (.int (g.count (← a.color 0))),
    fun g a => do pure (.bool (g.has (← a.color 0))),
    fun g _ => pure (.colors g.palette.colors) ]

/-- Primitives with other runs. -/
def withRuns (ps : List Primitive) (runs : List Run) : List Primitive :=
  List.zipWith (fun p run => { p with run := run }) ps runs

/-- The primitives of the catalogue with guarded runs. -/
def primitives : List Primitive :=
  withRuns Catalogue.all (spatial ++ tiling ++ coloring ++ drawing ++ queries)

end Guarded

/-- The registry of the catalogue with guarded runs. -/
def Registry.guarded : Registry := Registry.empty.registerAll Guarded.primitives

/-! ## Guarded runs agree -/

/-- A run that is guarded and gives what the run of the primitive gives. -/
def Primitive.RunBy (p : Primitive) (run : Run) : Prop :=
  ∀ {limit : Nat} {g : Grid} {a : Args}, Runnable limit g a →
    Guards (Value.Sound limit) (run g a) (p.run g a)

theorem runBy_onGrids {name : String} {cost : Nat} {params : List Param}
    {run run' : Grid → Args → Except Fault Grid}
    (h : ∀ {limit : Nat} {g : Grid} {a : Args}, Runnable limit g a →
      Guards (Grid.Sound limit) (run' g a) (run g a)) :
    (Primitive.onGrids name cost params run).RunBy (Guarded.onGrids run') :=
  fun hrun => (h hrun).map fun _ hsound => hsound

namespace Guarded

theorem runBy_spatial : List.Forall₂ Primitive.RunBy Catalogue.spatial spatial := by
  refine .cons (runBy_onGrids fun h => .ok h.grid) ?_
  refine .cons (runBy_onGrids fun h => (guards_int _ 0).bind fun k _ => guards_rotate h.grid k) ?_
  refine .cons (runBy_onGrids fun h => guards_reflectH h.grid) ?_
  refine .cons (runBy_onGrids fun h => guards_reflectV h.grid) ?_
  refine .cons (runBy_onGrids fun h => guards_transpose h.grid) ?_
  refine .cons (runBy_onGrids fun h => ?_) (.cons (runBy_onGrids fun h => ?_) .nil)
  · exact (guards_color _ 0).bind fun _ hbg => guards_cropToContent h.grid hbg
  · exact (guards_color _ 0).bind fun _ hbg => guards_cropLargestObject h.grid hbg

theorem runBy_tiling : List.Forall₂ Primitive.RunBy Catalogue.tiling tiling := by
  refine .cons (runBy_onGrids fun h => ?_) (.cons (runBy_onGrids fun h => ?_)
    (.cons (runBy_onGrids fun h => ?_) (.cons (runBy_onGrids fun h => ?_)
      (.cons (runBy_onGrids fun h => ?_) .nil))))
  · exact (guards_count _ 0).bind fun n _ => guards_scale h.grid h.maxSide_le n
  · exact (guards_count _ 0).bind fun n _ => guards_tileH h.grid h.maxSide_le n
  · exact (guards_count _ 0).bind fun n _ => guards_tileV h.grid h.maxSide_le n
  · exact (guards_count _ 0).bind fun m _ => (guards_count _ 1).bind fun n _ =>
      guards_tileRepeat h.grid h.maxSide_le m n
  · exact (guards_count _ 0).bind fun m _ => (guards_count _ 1).bind fun n _ =>
      guards_tileToSize h.grid h.maxSide_le m n

theorem runBy_coloring : List.Forall₂ Primitive.RunBy Catalogue.coloring coloring := by
  refine .cons (runBy_onGrids fun h => ?_) (.cons (runBy_onGrids fun h => ?_)
    (.cons (runBy_onGrids fun h => ?_) (.cons (runBy_onGrids fun h => ?_)
      (.cons (runBy_onGrids fun h => ?_) (.cons (runBy_onGrids fun h => ?_)
        (.cons (runBy_onGrids fun h => ?_) .nil))))))
  · exact (guards_grid h 0).bind fun _ hsource => (guards_int _ 1).bind fun row _ =>
      (guards_int _ 2).bind fun col _ => (guards_color _ 3).bind fun bg _ =>
        guards_paste h.grid hsource row col bg
  · exact (guards_int _ 0).bind fun row _ => (guards_int _ 1).bind fun col _ =>
      (guards_color _ 2).bind fun _ hcolor => guards_floodFill h.grid hcolor row col
  · refine (guards_grid h 0).bind fun _ hmask => (guards_color _ 1).bind fun _ hcolor => ?_
    refine guards_combine h.grid hmask _ fun x m hx _ => ?_
    split
    · exact hcolor
    · exact hx
  · refine (guards_color _ 0).bind fun _ _ => (guards_color _ 1).bind fun _ htarget => ?_
    refine guards_map h.grid fun x hx => ?_
    split
    · exact htarget
    · exact hx
  · refine (guards_grid h 0).bind fun _ hsource => ?_
    refine guards_combine h.grid hsource _ fun x s hx hs => ?_
    split
    · exact hs
    · exact hx
  · refine (guards_color _ 0).bind fun _ _ => guards_map h.grid fun x _ => ?_
    split <;> decide
  · refine (guards_grid h 0).bind fun _ hmask => (guards_color _ 1).bind fun _ hbg => ?_
    refine guards_combine h.grid hmask _ fun x m hx _ => ?_
    split
    · exact hx
    · exact hbg

theorem runBy_drawing : List.Forall₂ Primitive.RunBy Catalogue.drawing drawing := by
  refine .cons (runBy_onGrids fun h => ?_) (.cons (runBy_onGrids fun h => ?_)
    (.cons (runBy_onGrids fun h => ?_) (.cons (runBy_onGrids fun h => ?_) .nil)))
  · exact (guards_int _ 0).bind fun row _ => (guards_int _ 1).bind fun col _ =>
      (guards_count _ 2).bind fun length _ => (guards_color _ 3).bind fun _ hcolor =>
        guards_drawRect h.grid hcolor row col 1 length
  · exact (guards_int _ 0).bind fun row _ => (guards_int _ 1).bind fun col _ =>
      (guards_count _ 2).bind fun length _ => (guards_color _ 3).bind fun _ hcolor =>
        guards_drawRect h.grid hcolor row col length 1
  · exact (guards_int _ 0).bind fun row _ => (guards_int _ 1).bind fun col _ =>
      (guards_count _ 2).bind fun height _ => (guards_count _ 3).bind fun width _ =>
        (guards_color _ 4).bind fun _ hcolor => guards_drawRect h.grid hcolor row col height width
  · exact (guards_int _ 0).bind fun row _ => (guards_int _ 1).bind fun col _ =>
      (guards_count _ 2).bind fun height _ => (guards_count _ 3).bind fun width _ =>
        (guards_color _ 4).bind fun _ hcolor =>
          guards_drawRectOutline h.grid hcolor row col height width

theorem runBy_queries : List.Forall₂ Primitive.RunBy Catalogue.queries queries := by
  refine .cons (fun h => ?_) (.cons (fun h => ?_) (.cons (fun h => ?_) (.cons (fun h => ?_) .nil)))
  · refine (guards_color _ 0).bind fun color _ => ?_
    exact (guards_select h.grid (fun _ x => x == color)
      (fun p => (Grid.get? _ p.row p.col) == some color) (fun p hp => Shape.mem_cells.1 hp)
      fun p _ x hx => by rw [hx]; rfl).bind_ok fun _ => .ok trivial
  · exact (guards_color _ 0).bind fun _ _ => .ok trivial
  · exact (guards_color _ 0).bind fun _ _ => .ok trivial
  · exact .ok trivial

theorem runBy_all : List.Forall₂ Primitive.RunBy Catalogue.all
    (spatial ++ tiling ++ coloring ++ drawing ++ queries) :=
  List.rel_append (List.rel_append (List.rel_append (List.rel_append runBy_spatial runBy_tiling)
    runBy_coloring) runBy_drawing) runBy_queries

end Guarded

/-! ## Guarded primitives -/

/-- A primitive that is called like another one and whose run is guarded and gives the same. -/
structure Primitive.GuardedBy (p q : Primitive) : Prop where
  name_eq : q.name = p.name
  params_eq : q.params = p.params
  runBy : p.RunBy q.run

theorem Guarded.guardedBy_withRuns {ps : List Primitive} {runs : List Run}
    (h : List.Forall₂ Primitive.RunBy ps runs) :
    List.Forall₂ Primitive.GuardedBy ps (withRuns ps runs) := by
  induction h with
  | nil => exact .nil
  | cons hrun _ ih => exact .cons ⟨rfl, rfl, hrun⟩ ih

namespace Registry

variable {p q : Primitive} {ps qs : List Primitive}

theorem guardedBy_place (h : p.GuardedBy q) (hrest : List.Forall₂ Primitive.GuardedBy ps qs) :
    List.Forall₂ Primitive.GuardedBy (place p ps) (place q qs) := by
  induction hrest with
  | nil => exact .cons h .nil
  | cons hfirst hrest ih =>
    rw [place, place, h.name_eq, hfirst.name_eq]
    split_ifs
    · exact .cons h hrest
    · exact .cons h (.cons hfirst hrest)
    · exact .cons hfirst ih

/-- Registering primitives one after another keeps the relation. -/
theorem guardedBy_registerAll {reg reg' : Registry}
    (hreg : List.Forall₂ Primitive.GuardedBy reg.primitives reg'.primitives)
    (h : List.Forall₂ Primitive.GuardedBy ps qs) :
    List.Forall₂ Primitive.GuardedBy (reg.registerAll ps).primitives
      (reg'.registerAll qs).primitives := by
  induction h generalizing reg reg' with
  | nil => exact hreg
  | cons hfirst _ ih => exact ih (guardedBy_place hfirst hreg)

theorem find?_cases (h : List.Forall₂ Primitive.GuardedBy ps qs) (name : String) :
    (ps.find? (fun p => p.name == name) = none ∧ qs.find? (fun q => q.name == name) = none) ∨
    ∃ p q, ps.find? (fun p => p.name == name) = some p ∧
      qs.find? (fun q => q.name == name) = some q ∧ p.GuardedBy q := by
  induction h with
  | nil => exact .inl ⟨rfl, rfl⟩
  | @cons p q _ _ h _ ih =>
    rw [List.find?_cons, List.find?_cons, h.name_eq]
    cases p.name == name with
    | true => exact .inr ⟨p, q, rfl, rfl, h⟩
    | false => exact ih

/-- A name is missing in both registries, or it names two related primitives. -/
theorem find_cases {reg reg' : Registry}
    (h : List.Forall₂ Primitive.GuardedBy reg.primitives reg'.primitives) (name : String) :
    (reg.find name = .error (.unknownPrimitive name) ∧
      reg'.find name = .error (.unknownPrimitive name)) ∨
    ∃ p q, reg.find name = .ok p ∧ reg'.find name = .ok q ∧ p.GuardedBy q := by
  simp only [find, get?]
  rcases find?_cases h name with ⟨hp, hq⟩ | ⟨p, q, hp, hq, h⟩
  · rw [hp, hq]
    exact .inl ⟨rfl, rfl⟩
  · rw [hp, hq]
    exact .inr ⟨p, q, rfl, rfl, h⟩

theorem guardedBy_guarded :
    List.Forall₂ Primitive.GuardedBy standard.primitives guarded.primitives :=
  guardedBy_registerAll .nil (Guarded.guardedBy_withRuns Guarded.runBy_all)

end Registry

/-! ## Calls -/

namespace Primitive

variable {p q : Primitive} {given : List Value}

/-- A refused argument is reported as one of the wrong kind. -/
theorem of_kindFault? {name : String} {index : Nat} {params : List Param} {fault : Fault}
    (h : kindFault? name index params given = some fault) :
    ∃ i expected, fault = .argumentType name i expected := by
  induction params generalizing index given with
  | nil => cases h
  | cons param params ih =>
    cases given with
    | nil => cases h
    | cons v vs =>
      rw [kindFault?] at h
      split at h
      · exact ih h
      · exact ⟨_, _, (Option.some.inj h).symm⟩

/-- Defaults are integers. -/
theorem of_defaults? {params : List Param} {vs : List Value} (h : defaults? params = some vs) :
    ∀ v ∈ vs, ∃ n, v = .int n := by
  intro v hv
  obtain ⟨q, -, hdefault⟩ := exists_default h hv
  obtain ⟨n, -, rfl⟩ := Option.map_eq_some_iff.1 hdefault
  exact ⟨n, rfl⟩

theorem guards_resolve (p : Primitive) (h : ∀ v ∈ given, v.Sound limit) :
    Guards (fun vs => ∀ v ∈ vs, v.Sound limit) (p.resolve given) (p.resolve given) := by
  rw [resolve]
  split
  · split
    · next fault hkind =>
      obtain ⟨i, expected, rfl⟩ := of_kindFault? hkind
      exact .error fun _ => Fault.noConfusion
    · split
      · next rest hrest =>
        refine .ok fun v hv => ?_
        rcases List.mem_append.1 hv with hv | hv
        · exact h v hv
        · obtain ⟨n, rfl⟩ := of_defaults? hrest v hv
          trivial
      · exact .error fun _ => Fault.noConfusion
  · exact .error fun _ => Fault.noConfusion

/-- Related primitives resolve arguments in the same way. -/
theorem GuardedBy.resolve_eq (h : p.GuardedBy q) (given : List Value) :
    q.resolve given = p.resolve given := by
  obtain ⟨name, cost, params, run⟩ := p
  obtain ⟨name', cost', params', run'⟩ := q
  obtain ⟨rfl, rfl, -⟩ := h
  rfl

/-- Related primitives give the same on sound grids and arguments. -/
theorem GuardedBy.guards_apply (h : p.GuardedBy q) (hlimit : maxSide ≤ limit)
    (hg : g.Sound limit) (hgiven : ∀ v ∈ given, v.Sound limit) :
    Guards (Value.Sound limit) (q.apply g given) (p.apply g given) := by
  rw [apply, apply, h.resolve_eq, h.name_eq]
  exact (p.guards_resolve hgiven).bind fun vs hvs => h.runBy ⟨hlimit, hg, hvs⟩

end Primitive

end GridRepair
