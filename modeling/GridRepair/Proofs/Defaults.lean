/-
# Omitted arguments

An omitted argument means its default (`Primitive.omitted_arguments_default`).  Arguments can be
omitted when all parameters from there on have a default (`Primitive.takes_iff_defaults`), whether or
not some of those before do; so the list of defaults that is asked for after this check is always
there.

Defaults can be written out, the first few or all of them (`Primitive.resolve_append_defaults`), as
long as parameters accept their own defaults.  Only those that take integers do: a parameter that
takes a grid can have a default, and refuses it when it is written.
-/
import GridRepair.Proofs.Typing

namespace GridRepair

namespace Primitive

variable {p : Primitive} {given values written omitted : List Value} {name : String} {index n : Nat}
  {params : List Param}

/-! ## Numbers of arguments -/

/-- So many arguments can be given when the parameters beyond them have defaults. -/
theorem takes_iff_defaults : p.takes n = true ↔
    n ≤ p.arity ∧ ∀ q ∈ p.params.drop n, q.default?.isSome = true := by
  constructor
  · intro h
    exact ⟨(takes_iff.1 h).2, default_of_takes h⟩
  · rintro ⟨harity, hdefaults⟩
    -- from the last parameter back to these, none stops the search for one without default
    have hdrop : ∀ q ∈ (p.params.drop n).reverse, q.default?.isSome = true :=
      fun q hq => hdefaults q (List.mem_reverse.1 hq)
    have hlength : p.mandatory ≤ ((p.params.take n).reverse).length := by
      rw [mandatory, ← List.take_append_drop n p.params, List.reverse_append,
        List.dropWhile_append_of_pos hdrop, List.take_append_drop]
      exact List.length_dropWhile_le _ _
    rw [List.length_reverse, List.length_take] at hlength
    exact takes_iff.2 ⟨hlength.trans (Nat.min_le_left _ _), harity⟩

/-! ## Resolved arguments -/

/-- Each value in a list of defaults is the default of its parameter. -/
theorem map_some_of_defaults? {rest : List Value} (h : defaults? params = some rest) :
    rest.map some = params.map fun q => q.default?.map Value.int := by
  rw [defaults?_eq_some_iff] at h
  induction h with
  | nil => rfl
  | cons hv _ ih => rw [List.map_cons, List.map_cons, hv, ih]

/-- There is a value for each parameter. -/
theorem length_of_resolve (h : p.resolve given = .ok values) : values.length = p.arity := by
  obtain ⟨htakes, -, rest, hrest, rfl⟩ := resolve_eq_ok_iff.1 h
  have hlength := (defaults?_eq_some_iff.1 hrest).length_eq
  have harity := (takes_iff_defaults.1 htakes).1
  rw [List.length_drop] at hlength
  rw [arity] at harity ⊢
  rw [List.length_append]
  omega

/-- After the given values come the defaults of the other parameters. -/
theorem exists_rest_of_resolve (h : p.resolve given = .ok values) :
    ∃ rest, values = given ++ rest ∧
      rest.map some = (p.params.drop given.length).map fun q => q.default?.map Value.int := by
  obtain ⟨-, -, rest, hrest, rfl⟩ := resolve_eq_ok_iff.1 h
  exact ⟨rest, rfl, map_some_of_defaults? hrest⟩

/-! ## Written defaults -/

/-- Parameters for which there is a list of defaults all have one. -/
theorem default_of_defaults? {rest : List Value} (h : defaults? params = some rest) :
    ∀ q ∈ params, q.default?.isSome = true := by
  rw [defaults?_eq_some_iff] at h
  induction h with
  | nil => exact List.forall_mem_nil _
  | cons hv _ ih =>
    obtain ⟨n, hn, -⟩ := Option.map_eq_some_iff.1 hv
    exact List.forall_mem_cons.2 ⟨by rw [hn, Option.isSome_some], ih⟩

/-- After the defaults that are written come those that are omitted. -/
theorem defaults?_drop (h : defaults? params = some (written ++ omitted)) :
    defaults? (params.drop written.length) = some omitted :=
  defaults?_eq_some_iff.2 (List.forall₂_drop_append _ _ _ (defaults?_eq_some_iff.1 h))

/-- The first refused argument is among the first ones, or else among the others. -/
theorem kindFault?_append (given more : List Value) :
    kindFault? name index params (given ++ more) =
      (kindFault? name index params given).or
        (kindFault? name (index + given.length) (params.drop given.length) more) := by
  induction given generalizing index params with
  | nil => cases params <;> rfl
  | cons v vs ih =>
    cases params with
    | nil => rfl
    | cons q qs =>
      rw [List.cons_append, kindFault?, kindFault?]
      split
      · rw [ih, List.length_cons, List.drop_succ_cons, Nat.add_assoc, Nat.add_comm 1]
      · rfl

/-- Parameters that take integers accept their defaults. -/
theorem kindFault?_defaults
    (hnumeric : ∀ q ∈ params, q.default?.isSome = true → q.kind.isNumeric = true)
    (h : defaults? params = some (written ++ omitted)) :
    kindFault? name index params written = none := by
  rw [kindFault?_eq_none_iff]
  intro i q v hq hv
  refine List.forall₂_zip (match_defaults hnumeric h) (List.mem_of_getElem? (i := i) ?_)
  rw [List.getElem?_zip_eq_some, List.getElem?_append_left (List.getElem?_eq_some_iff.1 hv).1]
  exact ⟨hq, hv⟩

/-- Arguments resolve alike when the first few of the omitted ones are written out. -/
theorem resolve_append_defaults
    (hnumeric : ∀ q ∈ p.params, q.default?.isSome = true → q.kind.isNumeric = true)
    (h : defaults? (p.params.drop given.length) = some (written ++ omitted)) :
    p.resolve (given ++ written) = p.resolve given := by
  have hlength : p.params.length - given.length = written.length + omitted.length := by
    rw [← List.length_drop, (defaults?_eq_some_iff.1 h).length_eq, List.length_append]
  rcases Nat.lt_or_ge p.params.length given.length with hover | harity
  · -- beyond all parameters there is nothing to write
    obtain rfl : written = [] := List.eq_nil_of_length_eq_zero (by omega)
    rw [List.append_nil]
  · have htakes : p.takes given.length = true :=
      takes_iff_defaults.2 ⟨harity, default_of_defaults? h⟩
    have htakes' : p.takes (given ++ written).length = true := by
      rw [takes_iff] at htakes ⊢
      rw [List.length_append]
      omega
    have hkinds : kindFault? p.name 0 p.params (given ++ written) =
        kindFault? p.name 0 p.params given := by
      rw [kindFault?_append, kindFault?_defaults
        (fun q hq => hnumeric q (List.mem_of_mem_drop hq)) h, Option.or_none]
    have hrest : defaults? (p.params.drop (given ++ written).length) = some omitted := by
      rw [List.length_append, ← List.drop_drop]
      exact defaults?_drop h
    rw [resolve, resolve, if_pos htakes, if_pos htakes', hkinds, h, hrest]
    simp only [List.append_assoc]

-- a parameter that takes a grid refuses its default
example : let p : Primitive := ⟨"stencil", 1, [⟨"mask", .grid, some 1⟩], fun g _ => .ok (.grid g)⟩
    p.resolve [] = .ok [.int 1] ∧ p.resolve [.int 1] = .error (.argumentType "stencil" 0 .grid) :=
  ⟨rfl, rfl⟩

/-- **Omitted arguments mean exactly their defaults.**  Arguments resolve when there are not too many
of them, the parameters beyond them have defaults and each is of the kind of its parameter.  Then
there is one value for each parameter: the given ones, and the defaults of the other parameters as
integers.  Where the number of the arguments is right, those defaults are all there.  As long as only
parameters that take integers have defaults, resolving what was resolved changes nothing, and a
primitive applies alike when some or all of the defaults are written out. -/
theorem omitted_arguments_default (p : Primitive) (given : List Value) :
    ((∃ values, p.resolve given = .ok values) ↔ given.length ≤ p.arity ∧
      (∀ q ∈ p.params.drop given.length, q.default?.isSome = true) ∧
      ∀ q v, (q, v) ∈ p.params.zip given → q.kind.accepts v = true) ∧
    (∀ values, p.resolve given = .ok values → values.length = p.arity ∧
      ∃ rest, values = given ++ rest ∧
        rest.map some = (p.params.drop given.length).map fun q => q.default?.map Value.int) ∧
    (p.takes given.length = true → given.length ≤ p.params.length ∧
      ∃ rest, defaults? (p.params.drop given.length) = some rest) ∧
    ((∀ q ∈ p.params, q.default?.isSome = true → q.kind.isNumeric = true) →
      (∀ values, p.resolve given = .ok values → p.resolve values = .ok values) ∧
      ∀ written omitted, defaults? (p.params.drop given.length) = some (written ++ omitted) →
        ∀ g, p.apply g (given ++ written) = p.apply g given) := by
  refine ⟨?_, ?_, ?_, fun hnumeric => ⟨?_, ?_⟩⟩
  · rw [exists_resolve_iff, takes_iff_defaults, ← forall_mem_zip_iff, and_assoc]
  · intro values h
    exact ⟨length_of_resolve h, exists_rest_of_resolve h⟩
  · intro h
    exact ⟨(takes_iff.1 h).2, exists_defaults (default_of_takes h)⟩
  · intro values h
    obtain ⟨-, -, rest, hrest, rfl⟩ := resolve_eq_ok_iff.1 h
    rw [← List.append_nil rest] at hrest
    rw [resolve_append_defaults hnumeric hrest, h]
  · intro written omitted h g
    rw [apply, resolve_append_defaults hnumeric h, apply]

/-- A primitive with a default before its last parameter without one, and two after it. -/
def framed : Primitive :=
  ⟨"framed", 2, [⟨"width", .int 1 3, some 1⟩, ⟨"frame", .grid, none⟩, ⟨"color", .color, some 5⟩,
    ⟨"gap", .int 0 2, some 0⟩], fun g a => do
      let c ← a.color 2
      pure (.grid (.full g.height g.width c))⟩

/-- Its first default cannot be left out, the last two can be written out one after the other, and a
color can be written in place of its default. -/
theorem omitted_arguments_default_framed :
    let frame : Value := .grid (.full 1 1 3)
    (¬ ∃ values, framed.resolve [.int 2] = .ok values) ∧
    framed.resolve [.int 2, frame] = .ok [.int 2, frame, .int 5, .int 0] ∧
    framed.resolve [.int 2, frame, .int 5, .int 0] = .ok [.int 2, frame, .int 5, .int 0] ∧
    (∀ g, framed.apply g [.int 2, frame, .int 5] = framed.apply g [.int 2, frame]) ∧
    (∀ g, framed.apply g [.int 2, frame, .int 5, .int 0] = framed.apply g [.int 2, frame]) ∧
    framed.apply (.full 1 2 0) [.int 2, frame, .int 7] = .ok (.grid (.full 1 2 7)) := by
  intro frame
  have hnumeric : ∀ q ∈ framed.params, q.default?.isSome = true → q.kind.isNumeric = true := by
    decide
  have hresolve : framed.resolve [.int 2, frame] = .ok [.int 2, frame, .int 5, .int 0] := rfl
  obtain ⟨-, -, -, hwritten⟩ := omitted_arguments_default framed [.int 2, frame]
  obtain ⟨hagain, happly⟩ := hwritten hnumeric
  refine ⟨fun h => ?_, hresolve, hagain _ hresolve, happly [.int 5] [.int 0] rfl,
    happly [.int 5, .int 0] [] rfl, rfl⟩
  obtain ⟨-, hdefaults, -⟩ := (omitted_arguments_default framed [.int 2]).1.1 h
  exact absurd (hdefaults ⟨"frame", .grid, none⟩ (by decide)) (by decide)

end Primitive

end GridRepair
