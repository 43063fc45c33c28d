/-
# Where colors come from

A program over the catalogue makes up no colors (`Program.run_invents_no_color`).  What it shows was in
the grid that it started from, in one of its grid literals or among the integers that its calls have as
arguments; or it is zero or one, the colors of masks and the defaults of parameters.

The argument is about any set of colors that has zero and one: an operation stays within the set when
the grid, the grids among its arguments and its color arguments do (`Primitive.Thrifty`), and so does a
program, by induction over its steps (`Program.yields_eval`).
-/
import Mathlib.Data.Set.Insert
import GridRepair.Proofs.Copies
import GridRepair.Proofs.Miscalls
import GridRepair.Proofs.Validity

namespace GridRepair

/-! ## Results -/

/-- Every result of the computation has the property. -/
def Yields {α : Type} (P : α → Prop) (x : Except Fault α) : Prop := ∀ a, x = .ok a → P a

namespace Yields

variable {α β : Type} {P : α → Prop} {Q : β → Prop} {x : Except Fault α} {f : α → Except Fault β}

/-- A result yields what is true of it. -/
theorem ok {a : α} (h : P a) : Yields P (.ok a) := by
  rintro _ ⟨⟩
  exact h

/-- A fault yields anything. -/
theorem error {fault : Fault} : Yields P (.error fault) := nofun

/-- A sequence yields what its second part does from what the first one yields. -/
theorem bind (h : Yields P x) (hf : ∀ a, P a → Yields Q (f a)) : Yields Q (x >>= f) := by
  intro b hb
  obtain ⟨a, ha, hfa⟩ := bind_eq_ok.1 hb
  exact hf a (h a ha) b hfa

/-- A sequence yields what its second part does, whatever the first one gives. -/
theorem andThen (hf : ∀ a, Yields Q (f a)) : Yields Q (x >>= f) :=
  bind (P := fun _ => True) (fun _ _ => trivial) fun a _ => hf a

end Yields

/-! ## Grids -/

namespace Grid

variable {S : Set Color} {g m : Grid} {bg color : Color}

/-- All cells of the grid have colors of the set. -/
def UsesOnly (S : Set Color) (g : Grid) : Prop := ∀ c ∈ g.cells, c ∈ S

/-- A grid that is built from colors of the set uses only these. -/
theorem usesOnly_ofFn {h w : Nat} {f : (r c : Nat) → r < h → c < w → Color}
    (hf : ∀ r c hr hc, f r c hr hc ∈ S) : (ofFn h w f).UsesOnly S := by
  intro c hc
  obtain ⟨i, rfl⟩ := Array.mem_ofFn.1 hc
  exact hf ..

namespace UsesOnly

/-- The color of a cell is one of them. -/
theorem colorAt (hg : g.UsesOnly S) {r c : Nat} (hr : r < g.height) (hc : c < g.width) :
    g.colorAt r c hr hc ∈ S :=
  hg _ (Array.getElem_mem _)

/-- A color that is seen is one of them. -/
theorem of_get? (hg : g.UsesOnly S) {r c : Nat} (h : g.get? r c = some color) : color ∈ S := by
  have hin : g.shape.Contains ⟨r, c⟩ := contains_of_get? h
  rw [get?_eq_some hin.1 hin.2, Option.some.injEq] at h
  rw [← h]
  exact hg.colorAt hin.1 hin.2

/-- A replacement by position that stays among the colors. -/
theorem mapIdx (hg : g.UsesOnly S) {f : Nat → Nat → Color → Color}
    (hf : ∀ r c, ∀ x ∈ S, f r c x ∈ S) : (g.mapIdx f).UsesOnly S :=
  usesOnly_ofFn fun r c hr hc => hf r c _ (hg.colorAt hr hc)

/-- A replacement by color that stays among the colors. -/
theorem map (hg : g.UsesOnly S) {f : Color → Color} (hf : ∀ x ∈ S, f x ∈ S) :
    (g.map f).UsesOnly S := by
  intro c hc
  obtain ⟨x, hx, rfl⟩ := Array.mem_map.1 hc
  exact hf x (hg x hx)

/-- Cells that are painted in one of the colors. -/
theorem paint (hg : g.UsesOnly S) (hcolor : color ∈ S) (test : Nat → Nat → Bool) :
    (g.mapIdx fun r c x => if test r c then color else x).UsesOnly S := by
  refine hg.mapIdx fun r c x hx => ?_
  split
  · exact hcolor
  · exact hx

/-- A combination that stays among the colors. -/
theorem combine (hg : g.UsesOnly S) (hm : m.UsesOnly S) {f : Color → Color → Color}
    (hf : ∀ x ∈ S, ∀ y ∈ S, f x y ∈ S) (operation : String) :
    Yields (UsesOnly S) (Grid.combine operation f g m) := by
  rw [Grid.combine]
  split
  · next hshape =>
    exact .ok (usesOnly_ofFn fun r c hr hc => hf _ (hg.colorAt hr hc) _
      (hm.colorAt (height_eq hshape ▸ hr) (width_eq hshape ▸ hc)))
  · exact .error

/-! ### Symmetries and crops -/

theorem reflectH (hg : g.UsesOnly S) : g.reflectH.UsesOnly S :=
  usesOnly_ofFn fun _ _ _ _ => hg.colorAt _ _

theorem reflectV (hg : g.UsesOnly S) : g.reflectV.UsesOnly S :=
  usesOnly_ofFn fun _ _ _ _ => hg.colorAt _ _

theorem transpose (hg : g.UsesOnly S) : g.transpose.UsesOnly S :=
  usesOnly_ofFn fun _ _ _ _ => hg.colorAt _ _

theorem rotate (hg : g.UsesOnly S) (k : Int) : (g.rotate k).UsesOnly S := by
  rw [Grid.rotate]
  split
  · exact hg
  · exact usesOnly_ofFn fun _ _ _ _ => hg.colorAt _ _
  · exact usesOnly_ofFn fun _ _ _ _ => hg.colorAt _ _
  · exact usesOnly_ofFn fun _ _ _ _ => hg.colorAt _ _

theorem window (hg : g.UsesOnly S) {b : Box} (h : b.fits g.shape = true) :
    (g.window b h).UsesOnly S :=
  usesOnly_ofFn fun _ _ _ _ => hg.colorAt _ _

/-- A crop shows cells of the grid, or the background. -/
theorem windowOr (hg : g.UsesOnly S) (hbg : bg ∈ S) (b : Option Box) :
    (g.windowOr bg b).UsesOnly S := by
  rw [Grid.windowOr]
  cases hpart : b.bind g.window? with
  | none => exact usesOnly_ofFn fun _ _ _ _ => hbg
  | some part =>
    obtain ⟨box, -, hwindow⟩ := Option.bind_eq_some_iff.1 hpart
    rw [window?, Option.dite_none_right_eq_some] at hwindow
    obtain ⟨hfits, hwindow⟩ := hwindow
    rw [Option.getD_some, ← Option.some.inj hwindow]
    exact hg.window hfits

/-! ### Copies -/

theorem scale (hg : g.UsesOnly S) (factor : Nat) : Yields (UsesOnly S) (g.scale factor) := by
  intro out hout
  obtain ⟨-, -, rfl⟩ := scale_eq_ok_iff.1 hout
  exact usesOnly_ofFn fun _ _ _ _ => hg.colorAt _ _

/-- A grid that is continued shows its cells, or the background where it has none. -/
theorem wrap (hg : g.UsesOnly S) (hzero : background ∈ S) (shape : Shape) :
    (g.wrap shape).UsesOnly S := by
  refine usesOnly_ofFn fun r c _ _ => ?_
  cases hcell : g.get? (r % g.height) (c % g.width) with
  | none => exact hzero
  | some color => exact hg.of_get? hcell

theorem tileToSize (hg : g.UsesOnly S) (hzero : background ∈ S) (height width : Nat) :
    Yields (UsesOnly S) (g.tileToSize height width) := by
  intro out hout
  obtain ⟨-, -, rfl⟩ := tileToSize_eq_ok_iff.1 hout
  exact hg.wrap hzero _

theorem tileRepeat (hg : g.UsesOnly S) (hzero : background ∈ S) (rows cols : Nat) :
    Yields (UsesOnly S) (g.tileRepeat rows cols) := by
  intro out hout
  obtain ⟨-, -, rfl⟩ := tileRepeat_eq_ok_iff.1 hout
  exact hg.wrap hzero _

/-! ### Painting -/

/-- What is pasted shows cells of the source where they are not transparent. -/
theorem paste (hg : g.UsesOnly S) (hm : m.UsesOnly S) (row col : Int) :
    (g.paste m row col bg).UsesOnly S := by
  refine hg.mapIdx fun r c x hx => ?_
  split
  · next s hs =>
    split
    · exact hx
    · rw [lookup?] at hs
      split at hs
      · exact hm.of_get? hs
      · cases hs
  · exact hx

theorem floodFill (hg : g.UsesOnly S) (hcolor : color ∈ S) (row col : Int) :
    (g.floodFill row col color).UsesOnly S := by
  rcases g.floodFill_eq_or row col color with h | ⟨seen, h⟩ <;> rw [h]
  · exact hg
  · exact hg.paint hcolor fun r c => seen.has ⟨r, c⟩

theorem recolor (hg : g.UsesOnly S) (hcolor : color ∈ S) (source : Color) :
    (g.recolor source color).UsesOnly S := by
  refine hg.map fun x hx => ?_
  split
  · exact hcolor
  · exact hx

/-- A mask shows zero and one only. -/
theorem maskColor (hzero : 0 ∈ S) (hone : 1 ∈ S) (g : Grid) (color : Color) :
    (g.maskColor color).UsesOnly S := by
  intro c hc
  obtain ⟨x, -, rfl⟩ := Array.mem_map.1 hc
  split
  · exact hone
  · exact hzero

theorem drawRect (hg : g.UsesOnly S) (hcolor : color ∈ S) (row col : Int) (height width : Nat) :
    (g.drawRect row col height width color).UsesOnly S :=
  hg.paint hcolor _

theorem drawRectOutline (hg : g.UsesOnly S) (hcolor : color ∈ S) (row col : Int)
    (height width : Nat) : (g.drawRectOutline row col height width color).UsesOnly S :=
  hg.paint hcolor _

end UsesOnly

end Grid

/-! ## Primitives -/

/-- A value that shows a grid uses only colors of the set. -/
def Value.UsesOnly (S : Set Color) : Value → Prop
  | .grid m => m.UsesOnly S
  | _ => True

/-- The set has the colors that a call on a grid has at hand: those of the grid and of the grids among
the arguments, the colors among the arguments, zero and one. -/
structure Args.Supply (S : Set Color) (g : Grid) (a : Args) : Prop where
  zero : 0 ∈ S
  one : 1 ∈ S
  grid : g.UsesOnly S
  grids : ∀ m, .grid m ∈ a.values → m.UsesOnly S
  ints : ∀ c : Color, .int c ∈ a.values → c ∈ S

namespace Args.Supply

variable {S : Set Color} {g : Grid} {a : Args}

/-- A color argument is at hand. -/
theorem color (h : a.Supply S g) (index : Nat) : Yields (· ∈ S) (a.color index) := by
  intro c hc
  obtain ⟨n, hn, hcolor⟩ := bind_eq_ok.1 hc
  obtain ⟨hrange, rfl⟩ := check_eq_ok.1 hcolor
  rw [Args.int] at hn
  split at hn
  · next m hm =>
    obtain ⟨v, hv, hint⟩ := Option.bind_eq_some_iff.1 hm
    cases v with
    | int k =>
      obtain rfl := Option.some.inj hint
      obtain rfl := Except.ok.inj hn
      refine h.ints k.toNat ?_
      rw [Int.toNat_of_nonneg hrange.1]
      exact List.mem_of_getElem? hv
    | _ => cases hint
  · cases hn

/-- The colors of a grid argument are at hand. -/
theorem source (h : a.Supply S g) (index : Nat) : Yields (Grid.UsesOnly S) (a.grid index) := by
  intro m hm
  rw [Args.grid] at hm
  split at hm
  · next m' hm' =>
    obtain ⟨v, hv, hgrid⟩ := Option.bind_eq_some_iff.1 hm'
    cases v with
    | grid k =>
      obtain rfl := Option.some.inj hgrid
      obtain rfl := Except.ok.inj hm
      exact h.grids k (List.mem_of_getElem? hv)
    | _ => cases hgrid
  · cases hm

/-- Zero and one can be added to the arguments. -/
theorem append {name : String} {given rest : List Value} (h : Args.Supply S g ⟨name, given⟩)
    (hrest : ∀ v ∈ rest, v = .int 0 ∨ v = .int 1) : Args.Supply S g ⟨name, given ++ rest⟩ where
  zero := h.zero
  one := h.one
  grid := h.grid
  grids m hm := by
    rcases List.mem_append.1 hm with hm | hm
    · exact h.grids m hm
    · -- neither of them is a grid
      rcases hrest _ hm with hm | hm <;> cases hm
  ints c hc := by
    rcases List.mem_append.1 hc with hc | hc
    · exact h.ints c hc
    · rcases hrest _ hc with hc | hc
      · rw [Nat.cast_eq_zero.1 (Value.int.inj hc)]
        exact h.zero
      · rw [Nat.cast_eq_one.1 (Value.int.inj hc)]
        exact h.one

end Args.Supply

/-- The primitive shows only colors that it has at hand, and its defaults are zero or one. -/
structure Primitive.Thrifty (prim : Primitive) : Prop where
  run : ∀ (S : Set Color) g a, a.Supply S g → Yields (Value.UsesOnly S) (prim.run g a)
  defaults : ∀ q ∈ prim.params, ∀ n ∈ q.default?, n = 0 ∨ n = 1

namespace Catalogue

/-- A primitive whose result is a grid is thrifty when the run behind it is. -/
theorem thrifty_onGrids {name : String} {cost : Nat} {params : List Param}
    {run : Grid → Args → Except Fault Grid}
    (hrun : ∀ (S : Set Color) g a, a.Supply S g → Yields (Grid.UsesOnly S) (run g a))
    (hdefaults : ∀ q ∈ params, ∀ n ∈ q.default?, n = 0 ∨ n = 1) :
    (Primitive.onGrids name cost params run).Thrifty where
  run S g a h v hv := by
    obtain ⟨out, hout, rfl⟩ := map_eq_ok.1 hv
    exact hrun S g a h out hout
  defaults := hdefaults

theorem thrifty_spatial : ∀ prim ∈ spatial, prim.Thrifty := by
  simp only [spatial, List.forall_mem_cons]
  refine ⟨?_, ?_, ?_, ?_, ?_, ?_, ?_, List.forall_mem_nil _⟩ <;>
    refine thrifty_onGrids (fun S g a h => ?_) (by decide)
  · exact .ok h.grid
  · exact .andThen fun _ => .ok (h.grid.rotate _)
  · exact .ok h.grid.reflectH
  · exact .ok h.grid.reflectV
  · exact .ok h.grid.transpose
  · exact (h.color 0).bind fun _ hbg => .ok (h.grid.windowOr hbg _)
  · exact (h.color 0).bind fun _ hbg => .ok (h.grid.windowOr hbg _)

theorem thrifty_tiling : ∀ prim ∈ tiling, prim.Thrifty := by
  simp only [tiling, List.forall_mem_cons]
  refine ⟨?_, ?_, ?_, ?_, ?_, List.forall_mem_nil _⟩ <;>
    refine thrifty_onGrids (fun S g a h => ?_) (by decide)
  · exact .andThen fun _ => h.grid.scale _
  · exact .andThen fun _ => .andThen fun _ => h.grid.tileRepeat h.zero _ _
  · exact .andThen fun _ => .andThen fun _ => h.grid.tileRepeat h.zero _ _
  · exact .andThen fun _ => .andThen fun _ => h.grid.tileRepeat h.zero _ _
  · exact .andThen fun _ => .andThen fun _ => h.grid.tileToSize h.zero _ _

theorem thrifty_coloring : ∀ prim ∈ coloring, prim.Thrifty := by
  simp only [coloring, List.forall_mem_cons]
  refine ⟨?_, ?_, ?_, ?_, ?_, ?_, ?_, List.forall_mem_nil _⟩ <;>
    refine thrifty_onGrids (fun S g a h => ?_) (by decide)
  · exact (h.source 0).bind fun _ hsource => .andThen fun _ => .andThen fun _ => .andThen fun _ =>
      .ok (h.grid.paste hsource _ _)
  · exact .andThen fun _ => .andThen fun _ => (h.color 2).bind fun _ hcolor =>
      .ok (h.grid.floodFill hcolor _ _)
  · refine (h.source 0).bind fun _ hmask => (h.color 1).bind fun _ hcolor =>
      h.grid.combine hmask (fun x hx y _ => ?_) _
    split
    · exact hcolor
    · exact hx
  · exact .andThen fun _ => (h.color 1).bind fun _ hcolor => .ok (h.grid.recolor hcolor _)
  · refine (h.source 0).bind fun _ hsource => h.grid.combine hsource (fun x hx y hy => ?_) _
    split
    · exact hy
    · exact hx
  · exact .andThen fun _ => .ok (.maskColor h.zero h.one _ _)
  · refine (h.source 0).bind fun _ hmask => (h.color 1).bind fun _ hbg =>
      h.grid.combine hmask (fun x hx y _ => ?_) _
    split
    · exact hx
    · exact hbg

theorem thrifty_drawing : ∀ prim ∈ drawing, prim.Thrifty := by
  simp only [drawing, List.forall_mem_cons]
  refine ⟨?_, ?_, ?_, ?_, List.forall_mem_nil _⟩ <;>
    refine thrifty_onGrids (fun S g a h => ?_) (by decide)
  · exact .andThen fun _ => .andThen fun _ => .andThen fun _ => (h.color 3).bind fun _ hcolor =>
      .ok (h.grid.drawRect hcolor _ _ _ _)
  · exact .andThen fun _ => .andThen fun _ => .andThen fun _ => (h.color 3).bind fun _ hcolor =>
      .ok (h.grid.drawRect hcolor _ _ _ _)
  · exact .andThen fun _ => .andThen fun _ => .andThen fun _ => .andThen fun _ =>
      (h.color 4).bind fun _ hcolor => .ok (h.grid.drawRect hcolor _ _ _ _)
  · exact .andThen fun _ => .andThen fun _ => .andThen fun _ => .andThen fun _ =>
      (h.color 4).bind fun _ hcolor => .ok (h.grid.drawRectOutline hcolor _ _ _ _)

/-- The answers to questions show no grid. -/
theorem thrifty_queries : ∀ prim ∈ queries, prim.Thrifty := by
  simp only [queries, List.forall_mem_cons]
  refine ⟨?_, ?_, ?_, ?_, List.forall_mem_nil _⟩ <;> refine ⟨fun S g a _ => ?_, by decide⟩
  · exact .andThen fun _ => .ok trivial
  · exact .andThen fun _ => .ok trivial
  · exact .andThen fun _ => .ok trivial
  · exact .ok trivial

/-- All primitives of the catalogue are thrifty. -/
theorem thrifty_all : ∀ prim ∈ all, prim.Thrifty :=
  forall_mem_all.2
    ⟨thrifty_spatial, thrifty_tiling, thrifty_coloring, thrifty_drawing, thrifty_queries⟩

end Catalogue

/-- The defaults of a thrifty primitive are zero or one. -/
theorem Primitive.Thrifty.of_mem_defaults {prim : Primitive} (hprim : prim.Thrifty) {n : Nat}
    {rest : List Value} (hrest : defaults? (prim.params.drop n) = some rest) {v : Value}
    (hv : v ∈ rest) : v = .int 0 ∨ v = .int 1 := by
  obtain ⟨q, hq, hdefault⟩ := exists_default hrest hv
  obtain ⟨n, hn, rfl⟩ := Option.map_eq_some_iff.1 hdefault
  rcases hprim.defaults q (List.mem_of_mem_drop hq) n hn with rfl | rfl
  · exact .inl rfl
  · exact .inr rfl

/-- A thrifty primitive shows only colors that the given arguments supply. -/
theorem Primitive.Thrifty.apply {prim : Primitive} (hprim : prim.Thrifty) {S : Set Color} {g : Grid}
    {given : List Value} (h : Args.Supply S g ⟨prim.name, given⟩) :
    Yields (Value.UsesOnly S) (prim.apply g given) := by
  intro v hv
  obtain ⟨values, hvalues, hrun⟩ := bind_eq_ok.1 hv
  obtain ⟨-, -, rest, hrest, rfl⟩ := resolve_eq_ok_iff.1 hvalues
  exact hprim.run S g _ (h.append fun w hw => hprim.of_mem_defaults hrest hw) v hrun

/-! ## Programs -/

namespace Program

variable {S : Set Color} {p : Program} {steps : List Program}

/-- The grid literals of a program use only colors of the set, and the colors among the integer
arguments of its calls are in it. -/
structure UsesOnly (S : Set Color) (p : Program) : Prop where
  grids : ∀ m ∈ p.gridLiterals, m.UsesOnly S
  ints : ∀ name args, .call name args ∈ p.leaves → ∀ c : Color, .literal (.int c) ∈ args → c ∈ S

/-- The grid literals of a program in a list are among those of the list. -/
theorem mem_gridLiteralsAll (hp : p ∈ steps) {m : Grid} (hm : m ∈ p.gridLiterals) :
    m ∈ gridLiteralsAll steps := by
  induction hp with
  | head ps =>
    rw [gridLiteralsAll]
    exact List.mem_append_left _ hm
  | tail q _ ih =>
    rw [gridLiteralsAll]
    exact List.mem_append_right _ ih

/-- The steps of a composition use only what the composition does. -/
theorem UsesOnly.step (h : (compose steps).UsesOnly S) (hp : p ∈ steps) : p.UsesOnly S where
  grids m hm := by
    refine h.grids m ?_
    rw [gridLiterals]
    exact mem_gridLiteralsAll hp hm
  ints name args hcall := by
    refine h.ints name args ?_
    rw [leaves, leavesAll_eq_flatMap]
    exact List.mem_flatMap.2 ⟨p, hp, hcall⟩

/-- The values that a call takes are those of its arguments. -/
theorem mem_of_literals {name : String} {index : Nat} {args : List Program} {given : List Value}
    (h : literals name index args = .ok given) {v : Value} (hv : v ∈ given) : literal v ∈ args := by
  induction args generalizing index given with
  | nil =>
    cases h
    cases hv
  | cons p ps ih =>
    cases p with
    | literal w =>
      rw [literals, bind_eq_ok] at h
      obtain ⟨vs, hvs, h⟩ := h
      cases h
      rcases List.mem_cons.1 hv with rfl | hv
      · exact List.mem_cons_self
      · exact List.mem_cons_of_mem _ (ih hvs hv)
    | call _ _ => cases h
    | compose _ => cases h

/-- The arguments of a call supply what the call uses. -/
theorem supply_call {name callee : String} {args : List Program} {given : List Value} {g : Grid}
    (hzero : 0 ∈ S) (hone : 1 ∈ S) (hg : g.UsesOnly S) (hcall : (call name args).UsesOnly S)
    (h : literals name 0 args = .ok given) : Args.Supply S g ⟨callee, given⟩ where
  zero := hzero
  one := hone
  grid := hg
  grids m hm := by
    refine hcall.grids m ?_
    rw [gridLiterals]
    refine mem_gridLiteralsAll (mem_of_literals h hm) ?_
    exact List.mem_singleton_self m
  ints c hc := hcall.ints name args (List.mem_singleton_self _) c (mem_of_literals h hc)

mutual

/-- Over the catalogue, a program shows only colors that it and its grid use, zero and one. -/
theorem yields_eval (hzero : 0 ∈ S) (hone : 1 ∈ S) : ∀ (p : Program) (g : Grid), p.UsesOnly S →
    g.UsesOnly S → Yields (Value.UsesOnly S) (p.eval .standard g)
  | .call name args, g, hp, hg => by
    rw [eval]
    intro v hv
    obtain ⟨prim, hprim, hv⟩ := bind_eq_ok.1 hv
    obtain ⟨given, hgiven, hv⟩ := bind_eq_ok.1 hv
    have hthrifty := Catalogue.thrifty_all prim
      (Registry.mem_all_of_get?_standard (find_eq_ok hprim).1)
    exact hthrifty.apply (supply_call hzero hone hg hp hgiven) v hv
  | .compose steps, g, hp, hg => by
    rw [eval]
    exact yields_evalSteps hzero hone steps g (fun p hstep => hp.step hstep) hg
  | .literal v, g, hp, _ => by
    rw [eval]
    cases v with
    | grid m => exact .ok (hp.grids m (List.mem_singleton_self m))
    | _ => exact .ok trivial

/-- Over the catalogue, steps show only colors that they and their grid use, zero and one. -/
theorem yields_evalSteps (hzero : 0 ∈ S) (hone : 1 ∈ S) : ∀ (ps : List Program) (g : Grid),
    (∀ p ∈ ps, p.UsesOnly S) → g.UsesOnly S → Yields (Value.UsesOnly S) (evalSteps .standard ps g)
  | [], _, _, _ => .error
  | [p], g, hps, hg => by
    rw [evalSteps_singleton]
    exact yields_eval hzero hone p g (hps p List.mem_cons_self) hg
  | p :: q :: ps, g, hps, hg => by
    obtain ⟨hp, hrest⟩ := List.forall_mem_cons.1 hps
    intro v hv
    obtain ⟨g', hg', hv⟩ := (evalSteps_cons_eq_ok_iff (List.cons_ne_nil q ps)).1 hv
    -- the rest starts from the grid that the first step shows
    exact yields_evalSteps hzero hone (q :: ps) g' hrest (yields_eval hzero hone p g hp hg _ hg') v hv

end

/-- **Programs make up no colors.**  A color of the grid that a program over the catalogue gives occurs
in the grid that it started from, or in a grid literal, or it is an integer argument of one of the
calls, or it is zero or one. -/
theorem run_invents_no_color {g out : Grid} (h : p.run .standard g = .ok out) :
    ∀ c ∈ out.cells, c ∈ g.cells ∨ (∃ m ∈ p.gridLiterals, c ∈ m.cells) ∨
      (∃ name args, .call name args ∈ p.leaves ∧ .literal (.int c) ∈ args) ∨ c = 0 ∨ c = 1 := by
  let S : Set Color := {c | c ∈ g.cells ∨ (∃ m ∈ p.gridLiterals, c ∈ m.cells) ∨
    (∃ name args, .call name args ∈ p.leaves ∧ .literal (.int c) ∈ args) ∨ c = 0 ∨ c = 1}
  have hp : p.UsesOnly S :=
    ⟨fun m hm c hc => .inr (.inl ⟨m, hm, hc⟩),
      fun name args hcall c hc => .inr (.inr (.inl ⟨name, args, hcall, hc⟩))⟩
  have hg : g.UsesOnly S := fun c hc => .inl hc
  have hzero : 0 ∈ S := .inr (.inr (.inr (.inl rfl)))
  have hone : 1 ∈ S := .inr (.inr (.inr (.inr rfl)))
  exact yields_eval hzero hone p g hp hg (.grid out) (run_eq_ok_iff.1 h)

/-- A program with a mask, a background by default, a source and two color arguments. -/
def sketch : Program :=
  .compose
    [.apply "apply_mask" [.grid ⟨1, 4, #[4, 4, 0, 4], rfl⟩],
      .compose [.apply "paste" [.grid (.dot 5)], .apply "recolor" [.int 3, .int 6]]]

/-- The sketch shows one color of each origin: five from the source, six from an argument, zero from
the default and two from the start. -/
theorem run_invents_no_color_sketch :
    ∃ out, sketch.run .standard ⟨1, 4, #[2, 3, 7, 2], rfl⟩ = .ok out ∧ out.cells = #[5, 6, 0, 2] ∧
      ∀ c ∈ out.cells, c ∈ #[2, 3, 7, 2] ∨ (∃ m ∈ sketch.gridLiterals, c ∈ m.cells) ∨
        (∃ name args, .call name args ∈ sketch.leaves ∧ .literal (.int c) ∈ args) ∨
        c = 0 ∨ c = 1 := by
  obtain ⟨out, hrun, hcells⟩ : ∃ out, sketch.run .standard ⟨1, 4, #[2, 3, 7, 2], rfl⟩ = .ok out ∧
      out.cells = #[5, 6, 0, 2] := exists_ok_of_map (by decide +kernel)
  exact ⟨out, hrun, hcells, run_invents_no_color hrun⟩

end Program

end GridRepair
