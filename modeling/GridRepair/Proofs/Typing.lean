/-
# Typed programs

A program is typed when every call that it runs names a registered primitive and has literals as
arguments that the primitive resolves (`Program.WellTyped`).  Resolving looks at the number of the
arguments and at their kinds only, which is what a search checks before it proposes a swap: `fits`
decides whether the arguments resolve (`Primitive.accepts_iff_fits`).

An edit is typed for a program when it leaves a call of this form in the place it changes
(`Edit.Typed`).  All proposed edits are (`Proposal.typed_of_mem_edits`), and a typed edit keeps
programs typed (`Edit.Typed.apply`).
-/
import Mathlib.Data.Set.List
import Mathlib.Data.List.DropRight
import Mathlib.Data.List.Forall2
import GridRepair.Proposal
import GridRepair.Proofs.Editing

namespace GridRepair

/-- What is true of the pairs of two lists is true of their entries, index by index. -/
theorem forall_mem_zip_iff {α β : Type} {xs : List α} {ys : List β} {P : α → β → Prop} :
    (∀ a b, (a, b) ∈ xs.zip ys → P a b) ↔
      ∀ (i : Nat) a b, xs[i]? = some a → ys[i]? = some b → P a b := by
  simp only [List.mem_iff_getElem?, List.getElem?_zip_eq_some]
  exact ⟨fun h i a b ha hb => h a b ⟨i, ha, hb⟩, fun h a b ⟨i, ha, hb⟩ => h i a b ha hb⟩

/-! ## Resolving arguments -/

namespace Primitive

open Proposal

variable {prim : Primitive} {args : List Program} {given : List Value}

/-- The arguments of a call are literals, and the primitive resolves them. -/
def Accepts (prim : Primitive) (args : List Program) : Prop :=
  ∃ given values, args = given.map Program.literal ∧ prim.resolve given = .ok values

/-- So many arguments can be given when they reach past the last parameter without default. -/
theorem takes_iff {n : Nat} : prim.takes n = true ↔ prim.mandatory ≤ n ∧ n ≤ prim.params.length := by
  rw [takes, Bool.and_eq_true, decide_eq_true_eq, decide_eq_true_eq]
  rfl

/-- Parameters that all have a default have a list of defaults. -/
theorem exists_defaults {params : List Param} (h : ∀ q ∈ params, q.default?.isSome = true) :
    ∃ rest, defaults? params = some rest := by
  induction params with
  | nil => exact ⟨[], rfl⟩
  | cons q qs ih =>
    obtain ⟨hq, hqs⟩ := List.forall_mem_cons.1 h
    obtain ⟨n, hn⟩ := Option.isSome_iff_exists.1 hq
    obtain ⟨rest, hrest⟩ := ih hqs
    exact ⟨.int n :: rest, by rw [defaults?, hn, hrest]⟩

/-- A list of defaults has the default of each parameter. -/
theorem defaults?_eq_some_iff {params : List Param} {rest : List Value} :
    defaults? params = some rest ↔
      List.Forall₂ (fun q v => q.default?.map Value.int = some v) params rest := by
  induction params generalizing rest with
  | nil => rw [defaults?, Option.some.injEq, List.forall₂_nil_left_iff, eq_comm]
  | cons q qs ih =>
    rw [defaults?, List.forall₂_cons_left_iff]
    constructor
    · intro h
      split at h
      · next n vs hn hvs =>
        exact ⟨.int n, vs, by rw [hn, Option.map_some], ih.1 hvs, (Option.some.inj h).symm⟩
      · cases h
    · rintro ⟨v, vs, hv, hvs, rfl⟩
      obtain ⟨n, hn, rfl⟩ := Option.map_eq_some_iff.1 hv
      rw [hn, ih.2 hvs]

/-- A value in a list of defaults is the default of one of the parameters. -/
theorem exists_default {params : List Param} {rest : List Value}
    (h : defaults? params = some rest) {v : Value} (hv : v ∈ rest) :
    ∃ q ∈ params, q.default?.map Value.int = some v := by
  rw [defaults?_eq_some_iff] at h
  induction h with
  | nil => cases hv
  | cons hdefault _ ih =>
    rcases List.mem_cons.1 hv with rfl | hv
    · exact ⟨_, List.mem_cons_self, hdefault⟩
    · obtain ⟨q, hq, hdefault⟩ := ih hv
      exact ⟨q, List.mem_cons_of_mem _ hq, hdefault⟩

/-- Where so many arguments can be given, the parameters after them have defaults. -/
theorem default_of_takes {n : Nat} (h : prim.takes n = true) :
    ∀ q ∈ prim.params.drop n, q.default?.isSome = true := by
  have hmandatory := (takes_iff.1 h).1
  have hlength : (prim.params.rdropWhile fun q => q.default?.isSome).length ≤ n := by
    rw [List.rdropWhile, List.length_reverse]
    exact hmandatory
  intro q hq
  -- after the last parameter without default, all have one
  have hsplit : (prim.params.rdropWhile fun q => q.default?.isSome) ++
      (prim.params.rtakeWhile fun q => q.default?.isSome) = prim.params :=
    List.rdropWhile_append_rtakeWhile
  rw [← hsplit, List.drop_append, List.drop_of_length_le hlength, List.nil_append] at hq
  exact List.mem_rtakeWhile_imp (p := fun q : Param => q.default?.isSome)
    (List.mem_of_mem_drop hq)

/-- No given argument is refused when each is of the kind of its parameter. -/
theorem kindFault?_eq_none_iff {name : String} {index : Nat} {params : List Param} :
    kindFault? name index params given = none ↔
      ∀ (i : Nat) q v, params[i]? = some q → given[i]? = some v → q.kind.accepts v = true := by
  induction params generalizing index given with
  | nil => simp [kindFault?]
  | cons q qs ih =>
    cases given with
    | nil => simp [kindFault?]
    | cons v vs =>
      rw [kindFault?]
      constructor
      · intro h i q' v' hq hv
        split at h
        · next haccepts =>
          cases i with
          | zero => simp_all
          | succ i => exact ih.1 h i q' v' hq hv
        · cases h
      · intro h
        rw [if_pos (h 0 q v rfl rfl)]
        exact ih.2 fun i => h (i + 1)

/-- Arguments that resolve are right in number and kinds, and come before the defaults of the other
parameters. -/
theorem resolve_eq_ok_iff {values : List Value} :
    prim.resolve given = .ok values ↔ prim.takes given.length = true ∧
      (∀ (i : Nat) q v, prim.params[i]? = some q → given[i]? = some v → q.kind.accepts v = true) ∧
      ∃ rest, defaults? (prim.params.drop given.length) = some rest ∧ given ++ rest = values := by
  have hkinds : kindFault? prim.name 0 prim.params given = none ↔ ∀ (i : Nat) q v,
      prim.params[i]? = some q → given[i]? = some v → q.kind.accepts v = true :=
    kindFault?_eq_none_iff
  rw [← hkinds, resolve]
  constructor
  · intro h
    split at h
    · next htakes =>
      split at h
      · cases h
      · next hkinds =>
        split at h
        · next rest hrest => exact ⟨htakes, hkinds, rest, hrest, Except.ok.inj h⟩
        · cases h
    · cases h
  · rintro ⟨htakes, hkinds, rest, hrest, rfl⟩
    rw [if_pos htakes, hkinds, hrest]

/-- Arguments resolve when their number is right and each is of the kind of its parameter. -/
theorem exists_resolve_iff :
    (∃ values, prim.resolve given = .ok values) ↔ prim.takes given.length = true ∧
      ∀ (i : Nat) q v, prim.params[i]? = some q → given[i]? = some v → q.kind.accepts v = true := by
  constructor
  · rintro ⟨values, h⟩
    obtain ⟨htakes, hkinds, -⟩ := resolve_eq_ok_iff.1 h
    exact ⟨htakes, hkinds⟩
  · rintro ⟨htakes, hkinds⟩
    obtain ⟨rest, hrest⟩ := exists_defaults (default_of_takes htakes)
    exact ⟨given ++ rest, resolve_eq_ok_iff.2 ⟨htakes, hkinds, rest, hrest, rfl⟩⟩

/-- Arguments fit when their number is right and each is a literal of the kind of its parameter. -/
theorem fits_iff :
    fits prim args = true ↔ prim.takes args.length = true ∧
      ∀ (i : Nat) q a, prim.params[i]? = some q → args[i]? = some a → fitsParam q a = true := by
  rw [fits, Bool.and_eq_true, List.all_eq_true]
  rw [← forall_mem_zip_iff, Prod.forall]

/-- Arguments that fit are literals. -/
theorem exists_literals (h : fits prim args = true) :
    ∃ given : List Value, args = given.map Program.literal := by
  obtain ⟨htakes, hfits⟩ := fits_iff.1 h
  have hliteral : ∀ a ∈ args, a ∈ Set.range Program.literal := by
    intro a ha
    obtain ⟨i, hi⟩ := List.mem_iff_getElem?.1 ha
    have hlt : i < prim.params.length :=
      (List.getElem?_eq_some_iff.1 hi).1.trans_le (takes_iff.1 htakes).2
    have hfit := hfits i prim.params[i] a (List.getElem?_eq_getElem hlt) hi
    cases a with
    | literal v => exact ⟨v, rfl⟩
    | call name args => cases hfit
    | compose steps => cases hfit
  have hmem : args ∈ Set.range (List.map Program.literal) := by
    rw [Set.range_list_map]
    exact hliteral
  obtain ⟨given, hgiven⟩ := hmem
  exact ⟨given, hgiven.symm⟩

/-- Literals fit when their values resolve. -/
theorem fits_literals_iff :
    fits prim (given.map Program.literal) = true ↔ ∃ values, prim.resolve given = .ok values := by
  rw [fits_iff, exists_resolve_iff, List.length_map]
  refine and_congr_right fun _ => forall_congr' fun i => forall_congr' fun q => ?_
  rw [List.getElem?_map]
  cases given[i]? <;> simp [fitsParam]

/-- The check of a search decides whether a primitive accepts arguments. -/
theorem accepts_iff_fits : prim.Accepts args ↔ fits prim args = true := by
  constructor
  · rintro ⟨given, values, rfl, hresolve⟩
    exact fits_literals_iff.2 ⟨values, hresolve⟩
  · intro h
    obtain ⟨given, rfl⟩ := exists_literals h
    obtain ⟨values, hresolve⟩ := fits_literals_iff.1 h
    exact ⟨given, values, rfl, hresolve⟩

/-- An integer fits a parameter that takes one. -/
theorem fitsParam_int {q : Param} (h : q.kind.isNumeric = true) (n : Int) :
    fitsParam q (.literal (.int n)) = true := by
  cases hk : q.kind <;> simp_all [fitsParam, Param.Kind.accepts, Param.Kind.isNumeric]

/-- Defaults of parameters that take integers are of the kinds of the parameters. -/
theorem match_defaults {params : List Param} {rest : List Value}
    (hnumeric : ∀ q ∈ params, q.default?.isSome = true → q.kind.isNumeric = true)
    (h : defaults? params = some rest) :
    List.Forall₂ (fun q v => q.kind.accepts v = true) params rest := by
  rw [defaults?_eq_some_iff] at h
  refine List.forall₂_iff_zip.2 ⟨h.length_eq, fun {q v} hmem => ?_⟩
  obtain ⟨n, hn, rfl⟩ := Option.map_eq_some_iff.1 (List.forall₂_zip h hmem)
  exact fitsParam_int (hnumeric q (List.of_mem_zip hmem).1 (by rw [hn, Option.isSome_some])) n

/-- A call keeps its type when an argument is replaced by another integer. -/
theorem Accepts.set (h : prim.Accepts args) {index : Nat} {q : Param}
    (hq : prim.params[index]? = some q) (hnumeric : q.kind.isNumeric = true) (n : Int) :
    prim.Accepts (args.set index (.literal (.int n))) := by
  rw [accepts_iff_fits, fits_iff] at *
  obtain ⟨htakes, hfits⟩ := h
  refine ⟨by rwa [List.length_set], fun i q' a hq' ha => ?_⟩
  rw [List.getElem?_set] at ha
  split at ha
  · next heq =>
    subst heq
    split at ha
    · cases ha
      rw [hq] at hq'
      cases hq'
      exact fitsParam_int hnumeric n
    · cases ha
  · exact hfits i q' a hq' ha

/-- A call keeps its type when an integer is added for the next parameter. -/
theorem Accepts.concat (h : prim.Accepts args) {q : Param}
    (hq : prim.params[args.length]? = some q) (hnumeric : q.kind.isNumeric = true) (n : Int) :
    prim.Accepts (args ++ [.literal (.int n)]) := by
  rw [accepts_iff_fits, fits_iff] at *
  obtain ⟨htakes, hfits⟩ := h
  have hroom : args.length < prim.params.length := (List.getElem?_eq_some_iff.1 hq).1
  refine ⟨?_, fun i q' a hq' ha => ?_⟩
  · rw [takes_iff] at *
    rw [List.length_append, List.length_singleton]
    omega
  · rcases Nat.lt_or_ge i args.length with hi | hi
    · rw [List.getElem?_append_left hi] at ha
      exact hfits i q' a hq' ha
    · rw [List.getElem?_append_right hi, List.getElem?_singleton] at ha
      split at ha
      · next hzero =>
        cases ha
        have heq : i = args.length := by omega
        rw [heq, hq] at hq'
        cases hq'
        exact fitsParam_int hnumeric n
      · cases ha

/-- A call keeps its type when an integer argument is set. -/
theorem Accepts.withArgument (h : prim.Accepts args) {index : Nat} {q : Param}
    (hindex : index ≤ args.length) (hq : prim.params[index]? = some q)
    (hnumeric : q.kind.isNumeric = true) (n : Int) :
    prim.Accepts (Edit.withArgument args index n) := by
  rcases Nat.lt_or_eq_of_le hindex with hlt | rfl
  · rw [Edit.withArgument_of_lt hlt]
    exact h.set hq hnumeric n
  · rw [Edit.withArgument_length]
    exact h.concat hq hnumeric n

end Primitive

/-! ## Typed programs -/

namespace Program

variable {reg : Registry} {p q node : Program} {path : Path}

/-- Every call that the program runs names a registered primitive that accepts its arguments. -/
def WellTyped (reg : Registry) (p : Program) : Prop :=
  ∀ name args, .call name args ∈ p.leaves → ∃ prim, reg.get? name = some prim ∧ prim.Accepts args

/-- A call is typed when its primitive accepts the arguments. -/
theorem wellTyped_call_iff {name : String} {args : List Program} :
    (call name args).WellTyped reg ↔ ∃ prim, reg.get? name = some prim ∧ prim.Accepts args := by
  simp [WellTyped, leaves]

/-- A composition is typed when its steps are. -/
theorem wellTyped_compose_iff {steps : List Program} :
    (compose steps).WellTyped reg ↔ ∀ step ∈ steps, step.WellTyped reg := by
  simp only [WellTyped, leaves, leavesAll_eq_flatMap, List.mem_flatMap]
  constructor
  · exact fun h step hstep name args hmem => h name args ⟨step, hstep, hmem⟩
  · rintro h name args ⟨step, hstep, hmem⟩
    exact h step hstep name args hmem

/-- A call, if it is one, names a registered primitive that its arguments fit. -/
def callFits (reg : Registry) : Program → Bool
  | .call name args => (reg.get? name).any fun prim => Proposal.fits prim args
  | .compose _ => true
  | .literal _ => true

/-- Whether a program is typed can be read off its leaves. -/
theorem wellTyped_iff_callFits : p.WellTyped reg ↔ ∀ q ∈ p.leaves, q.callFits reg = true := by
  have hcall : ∀ name args, (call name args).callFits reg = true ↔
      ∃ prim, reg.get? name = some prim ∧ prim.Accepts args := by
    simp [callFits, Option.any_eq_true, Primitive.accepts_iff_fits]
  constructor
  · intro h q hq
    cases q with
    | call name args => exact (hcall name args).2 (h name args hq)
    | compose steps => rfl
    | literal v => rfl
  · exact fun h name args hmem => (hcall name args).1 (h _ hmem)

instance : Decidable (p.WellTyped reg) := decidable_of_iff _ wellTyped_iff_callFits.symm

/-- The nodes of a typed program are typed. -/
theorem WellTyped.of_node? (hp : p.WellTyped reg) (h : p.node? path = some node) :
    node.WellTyped reg := by
  intro name args hmem
  refine hp name args ?_
  rw [leaves_eq_around h]
  exact List.mem_append_left _ (List.mem_append_right _ hmem)

/-- Where leaves are exchanged, a typed program stays typed when the new leaves are. -/
theorem WellTyped.rewrites {before old new after : List Program} (hp : p.WellTyped reg)
    (h : p.Rewrites q before old new after)
    (hnew : ∀ name args, .call name args ∈ new → (call name args).WellTyped reg) :
    q.WellTyped reg := by
  intro name args hmem
  rw [h.leaves_right, List.mem_append, List.mem_append] at hmem
  rcases hmem with (hmem | hmem) | hmem
  · refine hp name args ?_
    rw [h.leaves_left, List.append_assoc]
    exact List.mem_append_left _ hmem
  · exact wellTyped_call_iff.1 (hnew name args hmem)
  · refine hp name args ?_
    rw [h.leaves_left]
    exact List.mem_append_right _ hmem

end Program

/-! ## Typed edits -/

namespace Edit

open Program

variable {reg : Registry} {p q : Program} {edit : Edit}

/-- The edit leaves typed calls in the place that it changes: the new name accepts the arguments
that are there, the new integer goes to a parameter that takes integers, the new step is typed. -/
def Typed (reg : Registry) (p : Program) : Edit → Prop
  | .swap location _ replacement => ∀ name args, p.node? location = some (.call name args) →
      (call replacement args).WellTyped reg
  | .tweak location index _ _ => ∀ name args, p.node? location = some (.call name args) →
      ∃ prim param, reg.get? name = some prim ∧ prim.params[index]? = some param ∧
        param.kind.isNumeric = true
  | .insert _ _ step => step.WellTyped reg
  | .remove _ => True
  | .reorder _ => True

/-- A typed edit keeps a program typed. -/
theorem Typed.apply (htyped : edit.Typed reg p) (hp : p.WellTyped reg)
    (h : edit.apply p = .ok q) : q.WellTyped reg := by
  have heffect := effect h
  cases edit with
  | swap location name replacement =>
    obtain ⟨-, args, hnode, hrewrites⟩ := heffect
    refine hp.rewrites hrewrites fun name' args' hmem => ?_
    rw [List.mem_singleton.1 hmem]
    exact htyped name args hnode
  | tweak location index old? new =>
    obtain ⟨-, name, args, hnode, hslot, hrewrites⟩ := heffect
    obtain ⟨prim, param, hprim, hparam, hnumeric⟩ := htyped name args hnode
    obtain ⟨prim', hprim', haccepts⟩ := wellTyped_call_iff.1 (hp.of_node? hnode)
    rw [hprim, Option.some.injEq] at hprim'
    subst hprim'
    refine hp.rewrites hrewrites fun name' args' hmem => ?_
    rw [List.mem_singleton.1 hmem]
    exact wellTyped_call_iff.2
      ⟨prim, hprim, haccepts.withArgument hslot.1 hparam hnumeric new⟩
  | insert location index step =>
    obtain ⟨node, -, -, hrewrites⟩ := heffect
    refine hp.rewrites hrewrites fun name args hmem => ?_
    exact wellTyped_call_iff.2 (htyped name args hmem)
  | remove location =>
    obtain ⟨step, -, hrewrites⟩ := heffect
    exact hp.rewrites hrewrites nofun
  | reorder location =>
    obtain ⟨parent, index, first, second, -, -, -, hrewrites⟩ := heffect
    refine hp.rewrites hrewrites fun name args hmem => ?_
    have hold := hrewrites.mem_left (List.perm_append_comm.mem_iff.1 hmem)
    exact wellTyped_call_iff.2 (hp name args hold)

end Edit

/-! ## Proposed edits -/

namespace Proposal

open Program

variable {reg : Registry} {p node : Program} {steps : List Program} {location : Path}
  {edit : Edit} {family : Edit.Family}

/-- There are values near an integer only for parameters that take integers. -/
theorem isNumeric_of_mem_nearby {kind : Param.Kind} {n v : Int} (h : v ∈ kind.nearby n) :
    kind.isNumeric = true := by
  cases kind with
  | int lo hi => rfl
  | color => rfl
  | grid => cases h

/-- The integer that a tweak of an argument starts from: the given one, or the default of the next
parameter. -/
def TweakedFrom (args : List Program) (index : Nat) (param : Param) (old? : Option Int)
    (current : Int) : Prop :=
  args[index]? = some (.literal (.int current)) ∧ old? = some current ∨
    index = args.length ∧ param.default? = some current ∧ old? = none

/-- A tweak of a call is at the index of a parameter, and goes to a value near that of the argument. -/
theorem exists_of_mem_tweaksOf {args : List Program} {index : Nat} {params : List Param}
    (h : edit ∈ tweaksOf location args index params) :
    ∃ i old? current new param, edit = .tweak location (index + i) old? new ∧
      params[i]? = some param ∧ new ∈ param.kind.nearby current ∧
      TweakedFrom args (index + i) param old? current := by
  induction params generalizing index with
  | nil => cases h
  | cons q qs ih =>
    -- an edit is one of the first parameter, or one of those after it
    have hfirst : ∀ current old?, TweakedFrom args index q old? current →
        edit ∈ (q.kind.nearby current).map (.tweak location index old?) →
        ∃ i old? current new param, edit = .tweak location (index + i) old? new ∧
          (q :: qs)[i]? = some param ∧ new ∈ param.kind.nearby current ∧
          TweakedFrom args (index + i) param old? current := by
      intro current old? hfrom hmem
      obtain ⟨new, hnew, rfl⟩ := List.mem_map.1 hmem
      exact ⟨0, old?, current, new, q, rfl, rfl, hnew, hfrom⟩
    have hrest : edit ∈ tweaksOf location args (index + 1) qs →
        ∃ i old? current new param, edit = .tweak location (index + i) old? new ∧
          (q :: qs)[i]? = some param ∧ new ∈ param.kind.nearby current ∧
          TweakedFrom args (index + i) param old? current := by
      intro hmem
      obtain ⟨i, old?, current, new, param, hedit, hparam, hnew, hfrom⟩ := ih hmem
      rw [show index + 1 + i = index + (i + 1) from by omega] at hedit hfrom
      exact ⟨i + 1, old?, current, new, param, hedit, hparam, hnew, hfrom⟩
    rw [tweaksOf] at h
    split at h
    · next n harg =>
      rcases List.mem_append.1 h with h | h
      · exact hfirst n (some n) (.inl ⟨harg, rfl⟩) h
      · exact hrest h
    · exact hrest h
    · split at h
      · next d hdefault =>
        split at h
        · next hnext =>
          rcases List.mem_append.1 h with h | h
          · exact hfirst d none (.inr ⟨hnext, hdefault, rfl⟩) h
          · exact hrest h
        · cases h
      · cases h

/-- Swaps of a node are typed. -/
theorem typed_of_mem_swapsOf (hnode : p.node? location = some node)
    (h : edit ∈ swapsOf reg location node) : edit.Typed reg p := by
  cases node with
  | call name args =>
    obtain ⟨other, hother, rfl⟩ := List.mem_map.1 h
    have hfits := (List.mem_filter.1 hother).2
    simp only [Bool.and_eq_true, Option.any_eq_true] at hfits
    obtain ⟨-, prim, hprim, hfit⟩ := hfits
    intro name' args' hcall
    rw [hnode, Option.some.injEq, call.injEq] at hcall
    obtain ⟨-, rfl⟩ := hcall
    exact wellTyped_call_iff.2 ⟨prim, hprim, Primitive.accepts_iff_fits.2 hfit⟩
  | compose steps => cases h
  | literal v => cases h

/-- Tweaks of a node are typed. -/
theorem typed_of_mem_tweaksAt (hnode : p.node? location = some node)
    (h : edit ∈ tweaksAt reg location node) : edit.Typed reg p := by
  cases node with
  | call name args =>
    rw [tweaksAt] at h
    split at h
    · next prim hprim =>
      obtain ⟨i, old?, current, new, param, rfl, hparam, hnew, -⟩ := exists_of_mem_tweaksOf h
      intro name' args' hcall
      rw [hnode, Option.some.injEq, call.injEq] at hcall
      obtain ⟨rfl, -⟩ := hcall
      exact ⟨prim, param, hprim, by rwa [Nat.zero_add], isNumeric_of_mem_nearby hnew⟩
    · cases h
  | compose steps => cases h
  | literal v => cases h

/-- The edits of a family are typed, and insertions are when the offered steps are. -/
theorem typed_of_mem_edits (hsteps : family = .insert → ∀ s ∈ steps, s.WellTyped reg)
    (h : edit ∈ edits reg steps p family) : edit.Typed reg p := by
  obtain ⟨⟨location, node⟩, hwalk, hedit⟩ := List.mem_flatMap.1 h
  have hnode := node?_of_mem_walk hwalk
  cases family with
  | swap => exact typed_of_mem_swapsOf hnode hedit
  | tweak => exact typed_of_mem_tweaksAt hnode hedit
  | insert =>
    obtain ⟨index, step, rfl, -, hstep⟩ := mem_insertionsAt_iff.1 hedit
    exact hsteps rfl step hstep
  | remove =>
    obtain ⟨index, others, rfl, -⟩ := mem_removalsAt_iff.1 hedit
    trivial
  | reorder =>
    obtain ⟨index, others, first, second, rfl, -⟩ := mem_exchangesAt_iff.1 hedit
    trivial

/-- The candidates of a family are typed, and those of insertions are when the offered steps are. -/
theorem wellTyped_of_mem_candidates (hp : p.WellTyped reg)
    (hsteps : family = .insert → ∀ s ∈ steps, s.WellTyped reg) {c : Candidate}
    (h : c ∈ candidates p (edits reg steps p family)) : c.program.WellTyped reg := by
  obtain ⟨hedit, happly⟩ := mem_candidates_iff.1 h
  exact (typed_of_mem_edits hsteps hedit).apply hp happly

end Proposal

end GridRepair
