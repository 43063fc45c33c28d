/-
# Searches make no miscalls

A miscall is a fault of the call itself: an unknown name, a wrong number of arguments, an argument
of the wrong kind or one that is no literal (`Fault.isMiscall`).  A typed program over the catalogue
may fail when it runs, but never for a miscall (`Program.heeds_eval`): every run of the catalogue
reads its arguments at indices whose parameters have the kind that is read (`Primitive.Heedful`).  Nor
does it end in a breach; only its cost can (`Program.cost_eq_breach`).

All programs that a search over the catalogue hands to its scorer are typed when the first one is,
because edits keep programs typed and the offered steps are typed.  So none of them is discarded for
a miscall (`Search.tried_wellTyped`).
-/
import Mathlib.Data.List.Forall2
import GridRepair.Proofs.Course
import GridRepair.Proofs.Evaluation
import GridRepair.Proofs.Guidance
import GridRepair.Proofs.Typing

namespace GridRepair

/-! ## Miscalls -/

/-- The fault is one of a call: its name, the number of its arguments, or what they are. -/
def Fault.isMiscall : Fault → Bool
  | .unknownPrimitive _ => true
  | .arity .. => true
  | .argumentType .. => true
  | .notLiteral .. => true
  | _ => false

/-- The fault is a breach. -/
def Fault.isBreach : Fault → Bool
  | .breach _ => true
  | _ => false

/-- The computation may fail, but neither for a miscall nor in a breach. -/
def Heeds {α : Type} (x : Except Fault α) : Prop :=
  ∀ fault, x = .error fault → (fault.isMiscall || fault.isBreach) = false

namespace Heeds

variable {α β : Type} {x : Except Fault α}

/-- A result is no fault. -/
theorem ok (a : α) : Heeds (.ok a) := nofun

/-- Another fault is no miscall and no breach. -/
theorem error {fault : Fault} (h : (fault.isMiscall || fault.isBreach) = false) :
    Heeds (.error fault : Except Fault α) := by
  intro fault' h'
  cases h'
  exact h

/-- The fault is no miscall. -/
theorem not_isMiscall (h : Heeds x) {fault : Fault} (hx : x = .error fault) :
    fault.isMiscall = false :=
  (Bool.or_eq_false_iff.1 (h fault hx)).1

/-- There is no breach. -/
theorem ne_breach (h : Heeds x) (cause : Breach) : x ≠ .error (.breach cause) := by
  intro hx
  cases (Bool.or_eq_false_iff.1 (h _ hx)).2

/-- A sequence makes no miscall when its parts make none. -/
theorem bind (h : Heeds x) {f : α → Except Fault β} (hf : ∀ a, x = .ok a → Heeds (f a)) :
    Heeds (x >>= f) := by
  intro fault hfault
  rcases bind_eq_error.1 hfault with hx | ⟨a, ha, hfa⟩
  · exact h fault hx
  · exact hf a ha fault hfa

/-- A sequence makes no miscall when its parts make none, whatever the first one gives. -/
theorem andThen (h : Heeds x) {f : α → Except Fault β} (hf : ∀ a, Heeds (f a)) :
    Heeds (x >>= f) :=
  h.bind fun a _ => hf a

/-- A change of the result makes no miscall. -/
theorem map (h : Heeds x) (f : α → β) : Heeds (x.map f) :=
  fun fault hfault => h fault (map_eq_error.1 hfault)

end Heeds

/-! ## Reading arguments -/

/-- A parameter that takes integers accepts integers only. -/
theorem Param.Kind.exists_int {kind : Param.Kind} {v : Value} (hnumeric : kind.isNumeric = true)
    (h : kind.accepts v = true) : ∃ n, v = .int n := by
  cases kind <;> cases v <;> simp_all [accepts, isNumeric]

/-- A parameter that takes no integers accepts grids only. -/
theorem Param.Kind.exists_grid {kind : Param.Kind} {v : Value} (hnumeric : kind.isNumeric = false)
    (h : kind.accepts v = true) : ∃ g, v = .grid g := by
  cases kind <;> cases v <;> simp_all [accepts, isNumeric]

namespace Args

variable {a : Args} {params : List Param} {index : Nat} {q : Param}

/-- There is a value of the right kind for every parameter. -/
def Match (a : Args) (params : List Param) : Prop :=
  List.Forall₂ (fun q v => q.kind.accepts v = true) params a.values

/-- The value for a parameter is of its kind. -/
theorem Match.exists_value (h : a.Match params) (hq : params[index]? = some q) :
    ∃ v, a.values[index]? = some v ∧ q.kind.accepts v = true := by
  obtain ⟨name, values⟩ := a
  simp only [Match] at h
  induction h generalizing index with
  | nil => cases hq
  | @cons _ v _ _ hfirst _ ih =>
    cases index with
    | zero =>
      cases hq
      exact ⟨v, rfl, hfirst⟩
    | succ index => exact ih hq

/-- The integer for a parameter that takes one is there. -/
theorem Match.int (h : a.Match params) (hq : params[index]? = some q)
    (hnumeric : q.kind.isNumeric = true) : Heeds (a.int index) := by
  obtain ⟨v, hv, haccepts⟩ := h.exists_value hq
  obtain ⟨n, rfl⟩ := Param.Kind.exists_int hnumeric haccepts
  rw [Args.int, hv]
  exact .ok n

/-- The integer for a parameter may be no color, which is not the call's fault. -/
theorem Match.color (h : a.Match params) (hq : params[index]? = some q)
    (hnumeric : q.kind.isNumeric = true) : Heeds (a.color index) := by
  refine (h.int hq hnumeric).andThen fun n => ?_
  rw [Grid.color?]
  split
  · exact .ok _
  · exact .error rfl

/-- The integer for a parameter may be negative, which is not the call's fault. -/
theorem Match.count (h : a.Match params) (hq : params[index]? = some q)
    (hnumeric : q.kind.isNumeric = true) : Heeds (a.count index) := by
  refine (h.int hq hnumeric).andThen fun n => ?_
  split
  · exact .ok _
  · exact .error rfl

/-- The grid for a parameter that takes one is there. -/
theorem Match.grid (h : a.Match params) (hq : params[index]? = some q)
    (hgrid : q.kind.isNumeric = false) : Heeds (a.grid index) := by
  obtain ⟨v, hv, haccepts⟩ := h.exists_value hq
  obtain ⟨g, rfl⟩ := Param.Kind.exists_grid hgrid haccepts
  rw [Args.grid, hv]
  exact .ok g

end Args

/-! ## Operations that may fail -/

namespace Grid

theorem heeds_checkPositive (primitive parameter : String) (count : Nat) :
    Heeds (checkPositive primitive parameter count) := by
  rw [checkPositive]
  split
  · exact .error rfl
  · exact .ok _

theorem heeds_checkOutput (primitive : String) (shape : Shape) :
    Heeds (checkOutput primitive shape) := by
  rw [checkOutput]
  split
  · exact .error rfl
  · exact .ok _

theorem heeds_copiesShape (primitive : String) (g : Grid) (rows cols : Nat) :
    Heeds (copiesShape primitive g rows cols) := by
  rw [copiesShape]
  split
  · exact .ok _
  · exact .error rfl

theorem heeds_scale (g : Grid) (factor : Nat) : Heeds (g.scale factor) :=
  (heeds_checkPositive _ _ _).andThen fun _ =>
    (heeds_copiesShape _ _ _ _).andThen fun _ =>
      (heeds_checkOutput _ _).andThen fun _ => .ok _

theorem heeds_tileToSize (g : Grid) (height width : Nat) : Heeds (g.tileToSize height width) :=
  (heeds_checkPositive _ _ _).andThen fun _ =>
    (heeds_checkPositive _ _ _).andThen fun _ =>
      (heeds_checkOutput _ _).andThen fun _ => .ok _

theorem heeds_tileRepeat (g : Grid) (rows cols : Nat) : Heeds (g.tileRepeat rows cols) :=
  (heeds_checkPositive _ _ _).andThen fun _ =>
    (heeds_checkPositive _ _ _).andThen fun _ =>
      (heeds_copiesShape _ _ _ _).andThen fun shape =>
        heeds_tileToSize g shape.height shape.width

theorem heeds_tileH (g : Grid) (count : Nat) : Heeds (g.tileH count) :=
  (heeds_checkPositive _ _ _).andThen fun _ => heeds_tileRepeat g 1 count

theorem heeds_tileV (g : Grid) (count : Nat) : Heeds (g.tileV count) :=
  (heeds_checkPositive _ _ _).andThen fun _ => heeds_tileRepeat g count 1

theorem heeds_combine (operation : String) (f : Color → Color → Color) (g m : Grid) :
    Heeds (combine operation f g m) := by
  rw [combine]
  split
  · exact .ok _
  · exact .error rfl

end Grid

/-! ## The catalogue -/

/-- The primitive makes no miscall on arguments of the kinds that it declares, and its defaults are
of these kinds. -/
structure Primitive.Heedful (prim : Primitive) : Prop where
  run : ∀ g a, a.Match prim.params → Heeds (prim.run g a)
  defaults : ∀ q ∈ prim.params, q.default?.isSome = true → q.kind.isNumeric = true

namespace Catalogue

/-- A primitive whose result is a grid heeds its declaration when the run behind it does. -/
theorem heedful_onGrids {name : String} {cost : Nat} {params : List Param}
    {run : Grid → Args → Except Fault Grid} (hrun : ∀ g a, a.Match params → Heeds (run g a))
    (hdefaults : ∀ q ∈ params, q.default?.isSome = true → q.kind.isNumeric = true) :
    (Primitive.onGrids name cost params run).Heedful :=
  ⟨fun g a h => (hrun g a h).map _, hdefaults⟩

theorem heedful_spatial : ∀ prim ∈ spatial, prim.Heedful := by
  simp only [spatial, List.forall_mem_cons]
  refine ⟨?_, ?_, ?_, ?_, ?_, ?_, ?_, nofun⟩ <;> refine heedful_onGrids (fun g a h => ?_) (by decide)
  · exact .ok _
  · exact (h.int rfl rfl).andThen fun _ => .ok _
  · exact .ok _
  · exact .ok _
  · exact .ok _
  · exact (h.color rfl rfl).andThen fun _ => .ok _
  · exact (h.color rfl rfl).andThen fun _ => .ok _

theorem heedful_tiling : ∀ prim ∈ tiling, prim.Heedful := by
  simp only [tiling, List.forall_mem_cons]
  refine ⟨?_, ?_, ?_, ?_, ?_, nofun⟩ <;> refine heedful_onGrids (fun g a h => ?_) (by decide)
  · exact (h.count rfl rfl).andThen fun _ => Grid.heeds_scale _ _
  · exact (h.count rfl rfl).andThen fun _ => Grid.heeds_tileH _ _
  · exact (h.count rfl rfl).andThen fun _ => Grid.heeds_tileV _ _
  · exact (h.count rfl rfl).andThen fun _ => (h.count rfl rfl).andThen fun _ =>
      Grid.heeds_tileRepeat _ _ _
  · exact (h.count rfl rfl).andThen fun _ => (h.count rfl rfl).andThen fun _ =>
      Grid.heeds_tileToSize _ _ _

theorem heedful_coloring : ∀ prim ∈ coloring, prim.Heedful := by
  simp only [coloring, List.forall_mem_cons]
  refine ⟨?_, ?_, ?_, ?_, ?_, ?_, ?_, nofun⟩ <;> refine heedful_onGrids (fun g a h => ?_) (by decide)
  · exact (h.grid rfl rfl).andThen fun _ => (h.int rfl rfl).andThen fun _ =>
      (h.int rfl rfl).andThen fun _ => (h.color rfl rfl).andThen fun _ => .ok _
  · exact (h.int rfl rfl).andThen fun _ => (h.int rfl rfl).andThen fun _ =>
      (h.color rfl rfl).andThen fun _ => .ok _
  · exact (h.grid rfl rfl).andThen fun _ => (h.color rfl rfl).andThen fun _ =>
      Grid.heeds_combine _ _ _ _
  · exact (h.color rfl rfl).andThen fun _ => (h.color rfl rfl).andThen fun _ => .ok _
  · exact (h.grid rfl rfl).andThen fun _ => Grid.heeds_combine _ _ _ _
  · exact (h.color rfl rfl).andThen fun _ => .ok _
  · exact (h.grid rfl rfl).andThen fun _ => (h.color rfl rfl).andThen fun _ =>
      Grid.heeds_combine _ _ _ _

theorem heedful_drawing : ∀ prim ∈ drawing, prim.Heedful := by
  simp only [drawing, List.forall_mem_cons]
  refine ⟨?_, ?_, ?_, ?_, nofun⟩ <;> refine heedful_onGrids (fun g a h => ?_) (by decide)
  · exact (h.int rfl rfl).andThen fun _ => (h.int rfl rfl).andThen fun _ =>
      (h.count rfl rfl).andThen fun _ => (h.color rfl rfl).andThen fun _ => .ok _
  · exact (h.int rfl rfl).andThen fun _ => (h.int rfl rfl).andThen fun _ =>
      (h.count rfl rfl).andThen fun _ => (h.color rfl rfl).andThen fun _ => .ok _
  · exact (h.int rfl rfl).andThen fun _ => (h.int rfl rfl).andThen fun _ =>
      (h.count rfl rfl).andThen fun _ => (h.count rfl rfl).andThen fun _ =>
        (h.color rfl rfl).andThen fun _ => .ok _
  · exact (h.int rfl rfl).andThen fun _ => (h.int rfl rfl).andThen fun _ =>
      (h.count rfl rfl).andThen fun _ => (h.count rfl rfl).andThen fun _ =>
        (h.color rfl rfl).andThen fun _ => .ok _

theorem heedful_queries : ∀ prim ∈ queries, prim.Heedful := by
  simp only [queries, List.forall_mem_cons]
  refine ⟨?_, ?_, ?_, ?_, nofun⟩ <;> refine ⟨fun g a h => ?_, by decide⟩
  · exact (h.color rfl rfl).andThen fun _ => .ok _
  · exact (h.color rfl rfl).andThen fun _ => .ok _
  · exact (h.color rfl rfl).andThen fun _ => .ok _
  · exact .ok _

/-- The catalogue is made of five lists. -/
theorem forall_mem_all {P : Primitive → Prop} : (∀ prim ∈ all, P prim) ↔
    (∀ prim ∈ spatial, P prim) ∧ (∀ prim ∈ tiling, P prim) ∧ (∀ prim ∈ coloring, P prim) ∧
      (∀ prim ∈ drawing, P prim) ∧ ∀ prim ∈ queries, P prim := by
  simp only [all, List.forall_mem_append, and_assoc]

/-- All primitives of the catalogue heed their declarations. -/
theorem heedful_all : ∀ prim ∈ all, prim.Heedful :=
  forall_mem_all.2
    ⟨heedful_spatial, heedful_tiling, heedful_coloring, heedful_drawing, heedful_queries⟩

end Catalogue

namespace Registry

/-- Registering a primitive adds no other one. -/
theorem of_get?_registerAll {reg : Registry} {ps : List Primitive} {name : String}
    {prim : Primitive} (h : (reg.registerAll ps).get? name = some prim) :
    prim ∈ ps ∨ reg.get? name = some prim := by
  induction ps generalizing reg with
  | nil => exact .inr h
  | cons p ps ih =>
    rcases @ih (reg.register p) h with hmem | hget
    · exact .inl (List.mem_cons_of_mem p hmem)
    · rw [get?_register] at hget
      split at hget
      · cases hget
        exact .inl List.mem_cons_self
      · exact .inr hget

/-- The primitives that are found are those of the catalogue. -/
theorem mem_all_of_get?_standard {name : String} {prim : Primitive}
    (h : standard.get? name = some prim) : prim ∈ Catalogue.all := by
  rcases of_get?_registerAll h with hmem | hempty
  · exact hmem
  · cases hempty

/-- The primitives of the catalogue heed their declarations. -/
theorem heedful_of_get?_standard {name : String} {prim : Primitive}
    (h : standard.get? name = some prim) : prim.Heedful :=
  Catalogue.heedful_all prim (mem_all_of_get?_standard h)

end Registry

/-! ## Running typed programs -/

namespace Primitive

variable {prim : Primitive} {given values : List Value}

/-- Resolved arguments are of the kinds of all parameters. -/
theorem match_resolve (hprim : prim.Heedful) (h : prim.resolve given = .ok values) :
    Args.Match ⟨prim.name, values⟩ prim.params := by
  obtain ⟨htakes, hkinds, rest, hrest, rfl⟩ := resolve_eq_ok_iff.1 h
  have hlength : given.length ≤ prim.params.length := (takes_iff.1 htakes).2
  -- the given ones go with the first parameters, the defaults with the others
  have hgiven : List.Forall₂ (fun q v => q.kind.accepts v = true) (prim.params.take given.length)
      given := by
    refine List.forall₂_iff_get.2 ⟨by rw [List.length_take, min_eq_left hlength], ?_⟩
    intro i hi hi'
    refine hkinds i _ _ ?_ (List.getElem?_eq_getElem hi')
    rw [List.get_eq_getElem, List.getElem_take, List.getElem?_eq_getElem]
  have hdefaults := match_defaults
    (fun q hq => hprim.defaults q (List.mem_of_mem_drop hq)) hrest
  have hall : List.Forall₂ (fun q v => q.kind.accepts v = true)
      (prim.params.take given.length ++ prim.params.drop given.length) (given ++ rest) :=
    List.rel_append hgiven hdefaults
  rwa [List.take_append_drop] at hall

/-- A primitive that heeds its declaration makes no miscall on arguments that it accepts. -/
theorem Heedful.apply (hprim : prim.Heedful) (h : prim.resolve given = .ok values) (g : Grid) :
    Heeds (prim.apply g given) := by
  rw [Primitive.apply, h]
  exact hprim.run g _ (match_resolve hprim h)

end Primitive

namespace Program

variable {p : Program}

/-- The values of literals are read off them. -/
theorem literals_map (name : String) (index : Nat) (given : List Value) :
    literals name index (given.map literal) = .ok given := by
  induction given generalizing index with
  | nil => rfl
  | cons v vs ih => rw [List.map_cons, literals, ih (index + 1)]; rfl

/-- Only literals have values to read off. -/
theorem literals_eq_ok {name : String} {index : Nat} {args : List Program} {given : List Value}
    (h : literals name index args = .ok given) : args = given.map literal := by
  induction args generalizing index given with
  | nil =>
    cases h
    rfl
  | cons a args ih =>
    cases a with
    | literal v =>
      simp only [literals, bind_eq_ok, pure_eq_ok] at h
      obtain ⟨rest, hrest, rfl⟩ := h
      rw [List.map_cons, ← ih hrest]
    | call callee others => cases h
    | compose steps => cases h

mutual

/-- A typed program over the catalogue makes no miscall. -/
theorem heeds_eval : ∀ (p : Program) (g : Grid), p.WellTyped .standard →
    Heeds (p.eval .standard g)
  | .call name args, g, h => by
    obtain ⟨prim, hprim, given, values, rfl, hresolve⟩ := wellTyped_call_iff.1 h
    rw [eval, Registry.find, hprim, ok_bind, literals_map, ok_bind]
    exact (Registry.heedful_of_get?_standard hprim).apply hresolve g
  | .compose steps, g, h => by
    rw [eval]
    exact heeds_evalSteps steps g (wellTyped_compose_iff.1 h)
  | .literal v, _, _ => by
    rw [eval]
    exact .ok v

/-- Typed steps over the catalogue make no miscall. -/
theorem heeds_evalSteps : ∀ (ps : List Program) (g : Grid), (∀ p ∈ ps, p.WellTyped .standard) →
    Heeds (evalSteps .standard ps g)
  | [], _, _ => .error rfl
  | [p], g, h => by
    rw [evalSteps_singleton]
    exact heeds_eval p g (h p List.mem_cons_self)
  | p :: q :: ps, g, h => by
    obtain ⟨hp, hrest⟩ := List.forall_mem_cons.1 h
    rw [evalSteps.eq_3 _ g p (q :: ps) (List.cons_ne_nil q ps)]
    refine (heeds_eval p g hp).andThen fun v => ?_
    cases v with
    | grid g' => exact heeds_evalSteps (q :: ps) g' hrest
    | int _ => exact .error rfl
    | bool _ => exact .error rfl
    | colors _ => exact .error rfl
    | positions _ => exact .error rfl

end

/-- A typed program over the catalogue runs without miscall. -/
theorem heeds_run (hp : p.WellTyped .standard) (g : Grid) : Heeds (p.run .standard g) := by
  refine (heeds_eval p g hp).andThen fun v => ?_
  cases v with
  | grid g' => exact .ok g'
  | int _ => exact .error rfl
  | bool _ => exact .error rfl
  | colors _ => exact .error rfl
  | positions _ => exact .error rfl

/-- A typed program over the catalogue is scored without miscall. -/
theorem heeds_score {S : Type} [Scalar S] (hp : p.WellTyped .standard) (t : Task) :
    Heeds (p.score .standard t : Except Fault S) := by
  have hpredictions : ∀ es : List Example, Heeds (p.predictions .standard es) := by
    intro es
    induction es with
    | nil => exact .ok []
    | cons e es ih =>
      exact (heeds_run hp e.input).andThen fun _ => ih.andThen fun _ => .ok _
  exact ((hpredictions t.examples).andThen fun _ => .ok _).andThen fun _ => .ok _

/-- A typed program calls registered primitives only. -/
theorem WellTyped.contains {reg : Registry} (hp : p.WellTyped reg) :
    ∀ name ∈ p.calls, reg.contains name = true := by
  intro name hname
  obtain ⟨leaf, hleaf, hcall⟩ := List.mem_filterMap.1 hname
  cases leaf with
  | call callee args =>
    obtain rfl := Option.some.inj hcall
    obtain ⟨prim, hprim, -⟩ := hp callee args hleaf
    rw [Registry.contains, hprim]
    rfl
  | compose steps => cases hcall
  | literal v => cases hcall

/-- The only fault of a cost of registered calls is that it leaves its range. -/
theorem cost_eq_breach {reg : Registry} {fault : Fault}
    (hknown : ∀ name ∈ p.calls, reg.contains name = true) (h : p.cost reg = .error fault) :
    fault = .breach .cost := by
  have hbilled : Billed reg 0 p.calls (p.cost reg) := billed_cost p
  rw [h] at hbilled
  cases hbilled with
  | missing hsome =>
    rw [Registry.missing?_eq_none_iff.2 hknown] at hsome
    cases hsome
  | overrun => rfl

mutual

/-- A program that has a value over a registry is typed. -/
theorem wellTyped_of_eval {reg : Registry} : ∀ (p : Program) (g : Grid) (v : Value),
    p.eval reg g = .ok v → p.WellTyped reg
  | .call name args, g, v, h => by
    simp only [eval, bind_eq_ok] at h
    obtain ⟨prim, hprim, given, hgiven, happly⟩ := h
    rw [Primitive.apply, bind_eq_ok] at happly
    obtain ⟨values, hvalues, -⟩ := happly
    exact wellTyped_call_iff.2
      ⟨prim, (find_eq_ok hprim).1, given, values, literals_eq_ok hgiven, hvalues⟩
  | .compose steps, g, v, h => by
    rw [eval] at h
    exact wellTyped_compose_iff.2 (wellTyped_of_evalSteps steps g v h)
  | .literal _, _, _, _ => nofun

/-- Steps that have a value over a registry are typed. -/
theorem wellTyped_of_evalSteps {reg : Registry} : ∀ (ps : List Program) (g : Grid) (v : Value),
    evalSteps reg ps g = .ok v → ∀ p ∈ ps, p.WellTyped reg
  | [], _, _, h => nofun
  | [p], g, v, h => by
    rw [evalSteps_singleton] at h
    exact List.forall_mem_singleton.2 (wellTyped_of_eval p g v h)
  | p :: q :: ps, g, v, h => by
    obtain ⟨g', hfirst, hrest⟩ := (evalSteps_cons_eq_ok_iff (List.cons_ne_nil q ps)).1 h
    exact List.forall_mem_cons.2
      ⟨wellTyped_of_eval p g (.grid g') hfirst, wellTyped_of_evalSteps (q :: ps) g' v hrest⟩

end

end Program

/-! ## Searching -/

namespace Search

open Program

variable {reg : Registry} {steps : List Program}

/-- A call of the catalogue is typed when its arguments fit the declared parameters. -/
theorem wellTyped_of_params {name : String} {args : List Program} (params : List Param)
    (hparams : (Registry.standard.get? name).map Primitive.params = some params)
    (hfits : ∀ prim : Primitive, prim.params = params → Proposal.fits prim args = true) :
    (call name args).WellTyped .standard := by
  obtain ⟨prim, hprim, hdeclared⟩ := Option.map_eq_some_iff.1 hparams
  exact wellTyped_call_iff.2 ⟨prim, hprim, Primitive.accepts_iff_fits.2 (hfits prim hdeclared)⟩

theorem wellTyped_recolorStep (source target : Color) :
    (Hint.recolorStep source target).WellTyped .standard := by
  refine wellTyped_of_params [.color "from", .color "to"] (by decide +kernel) ?_
  intro prim hparams
  rw [Proposal.fits, Primitive.takes, Primitive.mandatory, Primitive.arity, hparams]
  rfl

theorem wellTyped_scaleStep (factor : Nat) : (Hint.scaleStep factor).WellTyped .standard := by
  refine wellTyped_of_params [.factor "factor"] (by decide +kernel) ?_
  intro prim hparams
  rw [Proposal.fits, Primitive.takes, Primitive.mandatory, Primitive.arity, hparams]
  rfl

/-- The steps that a hint suggests are typed. -/
theorem wellTyped_of_mem_steps {hint : Hint} {step : Program} (h : step ∈ hint.steps) :
    step.WellTyped .standard := by
  cases hint with
  | recolor source target =>
    rw [List.mem_singleton.1 h]
    exact wellTyped_recolorStep source target
  | scaled factor =>
    rw [List.mem_singleton.1 h]
    exact wellTyped_scaleStep factor
  | shrink =>
    revert step
    decide +kernel
  | reshape =>
    revert step
    decide +kernel
  | addsColors colors =>
    obtain ⟨c, -, rfl⟩ := List.mem_map.1 h
    exact wellTyped_recolorStep c background
  | mostlySurplus => cases h
  | mostlyLacking => cases h
  | someSolved solved total => cases h

/-- The steps that a search over the catalogue offers for insertion are typed. -/
theorem wellTyped_of_mem_insertions {effort : Effort} {t : Task} {hints : List Hint}
    {step : Program} (h : step ∈ insertions .standard effort t hints) :
    step.WellTyped .standard := by
  obtain ⟨hsource, -⟩ := mem_insertions_iff.1 h
  rcases hsource with ⟨-, hint, -, hstep⟩ | ⟨factor, -, -, rfl⟩ | hlibrary
  · exact wellTyped_of_mem_steps hstep
  · exact wellTyped_scaleStep factor
  · have hall : ∀ s ∈ Proposal.library, s.WellTyped .standard := by decide +kernel
    exact hall step hlibrary

variable {S : Type} {s : Setting S} {x y : Position S}

/-- The candidates of a round from a typed program are typed. -/
theorem wellTyped_of_mem_batch (hsteps : ∀ step ∈ s.steps, step.WellTyped s.registry)
    (hx : x.current.WellTyped s.registry) {c : Candidate} (h : c ∈ batch s x) :
    c.program.WellTyped s.registry := by
  obtain ⟨hall, -⟩ := mem_of_mem_fresh (List.mem_of_mem_take h)
  obtain ⟨family, -, hc⟩ := List.mem_flatMap.1 hall
  exact Proposal.wellTyped_of_mem_candidates hx (fun _ => hsteps) hc

variable [Scalar S]

/-- A round from a typed program ends at a typed program. -/
theorem wellTyped_round (hsteps : ∀ step ∈ s.steps, step.WellTyped s.registry)
    (hx : x.current.WellTyped s.registry) {moved : Bool} (h : round s x = .ok (y, moved)) :
    y.current.WellTyped s.registry := by
  obtain ⟨ss, hss, ⟨c, score, hwinner, rfl, -⟩ | ⟨-, rfl, -⟩⟩ := round_eq_ok_iff.1 h
  · exact wellTyped_of_mem_batch hsteps hx (winner?_eq_some hss hwinner).1
  · exact hx

/-- The candidates of all rounds of a climb from a typed program are typed. -/
theorem wellTyped_of_mem_handed {n : Nat} (hsteps : ∀ step ∈ s.steps, step.WellTyped s.registry)
    (hx : x.current.WellTyped s.registry) :
    ∀ q ∈ handed s (roundStarts s n x), q.WellTyped s.registry := by
  have hround : ∀ z : Position S, z.current.WellTyped s.registry →
      ∀ q ∈ (batch s z).map Candidate.program, q.WellTyped s.registry := by
    intro z hz q hq
    obtain ⟨c, hc, rfl⟩ := List.mem_map.1 hq
    exact wellTyped_of_mem_batch hsteps hz hc
  induction n generalizing x with
  | zero => exact List.forall_mem_nil _
  | succ n ih =>
    rw [roundStarts]
    split
    swap
    · exact List.forall_mem_nil _
    rw [handed_cons]
    refine List.forall_mem_append.2 ⟨hround x hx, ?_⟩
    split
    · next x' hmoved => exact ih (wellTyped_round hsteps hx hmoved)
    · exact List.forall_mem_nil _

/-- A search over the catalogue that starts from a typed program tries typed programs only. -/
theorem wellTyped_of_mem_tried {scorer : Scorer S} {effort : Effort} {p q : Program} {t : Task}
    {hints : List Hint} (hp : p.WellTyped .standard)
    (h : q ∈ tried .standard scorer effort p t hints) : q.WellTyped .standard := by
  rw [tried] at h
  split at h
  · rw [List.mem_singleton.1 h]
    exact hp
  · rcases List.mem_cons.1 h with rfl | h
    · exact hp
    · exact wellTyped_of_mem_handed (fun _ => wellTyped_of_mem_insertions) hp q h

/-- Assessing a typed program over the catalogue fails for no miscall. -/
theorem not_isMiscall_of_assess {p : Program} {t : Task} (hp : p.WellTyped .standard) {index : Nat}
    {fault : Fault}
    (h : assess .standard (Program.score .standard : Scorer S) t index p = .error fault) :
    fault.isMiscall = false := by
  rcases assess_eq_error_iff.1 h with hscore | ⟨score, -, hcost⟩
  · exact (heeds_score hp t).not_isMiscall hscore
  · rw [cost_eq_breach hp.contains hcost]
    rfl

/-- Assessing a typed program over the catalogue is no breach as long as its cost is in range. -/
theorem not_breaks_of_wellTyped {p : Program} {t : Task} (hp : p.WellTyped .standard)
    (hcost : p.totalCost .standard ≤ maxCost) :
    ¬ Breaks .standard (Program.score .standard : Scorer S) t p := by
  rintro ⟨cause, hbreach⟩
  rcases assess_eq_error_iff.1 hbreach with hscore | ⟨score, -, hover⟩
  · exact (heeds_score hp t).ne_breach cause hscore
  · obtain ⟨name, -, -, hfault⟩ := cost_eq_error hcost hover
    cases hfault

/-- **A search proposes no ill-formed call.**  From a typed program, over any registry, every
family of edits leads to typed programs only; insertions do when the offered steps are typed.  So
over the catalogue, whatever the hints and the task are, every program that a search from a typed
program hands to its scorer, in any round, is typed, and neither its score nor its cost fails for a
miscall. -/
theorem tried_wellTyped :
    (∀ (reg : Registry) (p : Program) (steps : List Program) (family : Edit.Family),
      p.WellTyped reg → (family = .insert → ∀ step ∈ steps, step.WellTyped reg) →
      ∀ c ∈ Proposal.candidates p (Proposal.edits reg steps p family),
        c.program.WellTyped reg) ∧
    ∀ (effort : Effort) (p : Program) (t : Task) (hints : List Hint), p.WellTyped .standard →
      ∀ q ∈ tried .standard (Program.score .standard : Scorer S) effort p t hints,
        q.WellTyped .standard ∧
        ∀ index fault,
          assess .standard (Program.score .standard : Scorer S) t index q = .error fault →
          fault.isMiscall = false := by
  refine ⟨fun reg p steps family hp hsteps c hc =>
    Proposal.wellTyped_of_mem_candidates hp hsteps hc, fun effort p t hints hp q hq => ?_⟩
  have htyped := wellTyped_of_mem_tried hp hq
  exact ⟨htyped, fun index fault => not_isMiscall_of_assess htyped⟩

/-- Two turns in a row, one of them with the number of turns left out. -/
def turns : Program :=
  .compose [.apply "rotate90" [], .compose [.apply "rotate90" [.int 2], .apply "scale" [.int 2]]]

/-- The turns are typed, and so are their seven tweaks and the programs of two rounds from them. -/
theorem tried_wellTyped_turns :
    turns.WellTyped .standard ∧
    (Proposal.candidates turns (Proposal.edits .standard [] turns .tweak)).length = 7 ∧
    (∀ c ∈ Proposal.candidates turns (Proposal.edits .standard [] turns .tweak),
      c.program.WellTyped .standard) ∧
    ∀ q ∈ tried .standard (Program.score .standard : Scorer Rat) ⟨2, true, true, 9⟩ turns
        .quarterTurn [.scaled 2],
      q.WellTyped .standard ∧ ∀ index fault,
        assess .standard (Program.score .standard : Scorer Rat) .quarterTurn index q =
          .error fault → fault.isMiscall = false := by
  have hturns : turns.WellTyped .standard := by decide +kernel
  obtain ⟨hcandidates, htried⟩ := tried_wellTyped (S := Rat)
  exact ⟨hturns, by decide +kernel, hcandidates _ _ _ .tweak hturns nofun, htried _ _ _ _ hturns⟩

end Search

end GridRepair
