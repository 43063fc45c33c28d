/-
# Proper calls

A call of the catalogue has a result exactly when its arguments are proper (`Primitive.Proper`):
their number and their types are those that are declared, and with the defaults filled in, colors
are colors, numbers of cells or copies are not negative, copies stay within the largest side and
masks have the shape of the grid.  Any other call fails by a fault that blames the arguments
(`Registry.apply_needs_proper`).

`Needs` says both at once of a computation: under a condition it has a result, and otherwise such a
fault.  A sequence needs what its parts need (`Needs.bind`), so a run is followed argument by
argument in the order of its parameters.
-/
import GridRepair.Proofs.GuardedCatalogue
import GridRepair.Proofs.Miscalls

namespace GridRepair

/-! ## Computations with a condition -/

/-- The fault blames the arguments of a call: their number, their types or their values. -/
def Fault.blamesArguments : Fault → Bool
  | .arity .. => true
  | .argumentType .. => true
  | .invalidColor _ => true
  | .invalidArgument .. => true
  | .shapeMismatch .. => true
  | _ => false

/-- Where the condition holds, the computation has a result with a property; elsewhere it fails by
a fault that blames the arguments. -/
inductive Needs {α : Type} (P : Prop) (R : α → Prop) : Except Fault α → Prop where
  | ok {a : α} (hP : P) (hR : R a) : Needs P R (.ok a)
  | error {fault : Fault} (hP : ¬ P) (hfault : fault.blamesArguments = true) :
    Needs P R (.error fault)

namespace Needs

variable {α β : Type} {P Q : Prop} {R : α → Prop} {T : β → Prop} {x : Except Fault α}

/-- There is a result exactly under the condition. -/
theorem exists_ok_iff (h : Needs P R x) : (∃ a, x = .ok a) ↔ P := by
  cases h with
  | ok hP _ => exact iff_of_true ⟨_, rfl⟩ hP
  | error hP _ => exact iff_of_false nofun hP

/-- A fault blames the arguments. -/
theorem blames (h : Needs P R x) {fault : Fault} (hx : x = .error fault) :
    fault.blamesArguments = true := by
  cases h with
  | ok _ _ => cases hx
  | error _ hfault =>
    cases hx
    exact hfault

/-- The condition in other words. -/
theorem congr (h : Needs P R x) (hiff : P ↔ Q) : Needs Q R x := by
  rwa [← propext hiff]

/-- A sequence needs what its parts need. -/
theorem bind (h : Needs P R x) {f : α → Except Fault β} (hf : ∀ a, P → R a → Needs Q T (f a)) :
    Needs (P ∧ Q) T (x >>= f) := by
  cases h with
  | error hP hfault => exact .error (fun hPQ => hP hPQ.1) hfault
  | @ok a hP hR => exact (hf a hP hR).congr (and_iff_right hP).symm

/-- A computation that has a result from there on needs nothing more. -/
theorem finish (h : Needs P R x) {f : α → Except Fault β} (hf : ∀ a, R a → ∃ b, f a = .ok b) :
    Needs P (fun _ => True) (x >>= f) := by
  have hall : Needs (P ∧ True) (fun _ => True) (x >>= f) := h.bind fun a _ hR => by
    obtain ⟨b, hb⟩ := hf a hR
    rw [hb]
    exact .ok trivial trivial
  exact hall.congr (and_iff_left trivial)

/-- A change of the result needs nothing more. -/
theorem map (h : Needs P R x) {f : α → β} (hf : ∀ a, R a → T (f a)) : Needs P T (x.map f) := by
  cases h with
  | ok hP hR => exact .ok hP (hf _ hR)
  | error hP hfault => exact .error hP hfault

/-- What is computed when the condition holds, and refused when it does not. -/
theorem check {a : α} {fault : Fault} [Decidable P] (hR : R a)
    (hfault : fault.blamesArguments = true) :
    Needs P R (if P then .ok a else .error fault) := by
  by_cases hP : P
  · rw [if_pos hP]
    exact .ok hP hR
  · rw [if_neg hP]
    exact .error hP hfault

end Needs

/-! ## Proper arguments -/

/-- The parameter is a number of cells or copies: a side, a length, a count or a factor. -/
def Param.isCount (q : Param) : Bool :=
  ["factor", "count", "rows", "cols", "height", "width", "length"].contains q.name

/-- The height and the width of what a copying primitive makes of a grid of some shape, from its
arguments. -/
def outputSides? : String → Shape → List Value → Option (Int × Int)
  | "scale", s, [.int k] => some (s.height * k, s.width * k)
  | "tile_h", s, [.int n] => some (s.height, s.width * n)
  | "tile_v", s, [.int n] => some (s.height * n, s.width)
  | "tile_repeat", s, [.int m, .int n] => some (s.height * m, s.width * n)
  | "tile_to_size", _, [.int height, .int width] => some (height, width)
  | _, _, _ => none

namespace Primitive

/-- The primitive looks at a second grid cell by cell. -/
def isMasked (p : Primitive) : Bool := ["fill_mask", "overlay", "apply_mask"].contains p.name

/-- The given arguments, and the defaults of the parameters beyond them. -/
def filled (p : Primitive) (given : List Value) : List Value :=
  given ++ (p.params.drop given.length).filterMap fun q => q.default?.map Value.int

/-- The arguments of a call are proper for a grid. -/
structure Proper (p : Primitive) (g : Grid) (given : List Value) : Prop where
  /-- no parameter without default is left out, and no argument is beyond the parameters -/
  number : p.mandatory ≤ given.length ∧ given.length ≤ p.arity
  /-- grids are given for grids, and integers for integers and colors -/
  types : ∀ q v, (q, v) ∈ p.params.zip given →
    (q.kind = .grid → ∃ m, v = .grid m) ∧ (q.kind ≠ .grid → ∃ n, v = .int n)
  colors : ∀ q n, (q, .int n) ∈ p.params.zip (p.filled given) → q.kind = .color →
    0 ≤ n ∧ n ≤ 9
  counts : ∀ q n, (q, .int n) ∈ p.params.zip (p.filled given) → q.isCount = true → 0 ≤ n
  /-- copies are made at all, and they stay within the largest side -/
  copies : ∀ sides, outputSides? p.name g.shape (p.filled given) = some sides →
    (∀ n, .int n ∈ p.filled given → 1 ≤ n) ∧ sides.1 ≤ 256 ∧ sides.2 ≤ 256
  /-- masks have the shape of the grid -/
  masks : p.isMasked = true → ∀ m, .grid m ∈ p.filled given → m.shape = g.shape

end Primitive

/-! ## Values in range -/

/-- If the value is an integer, it is in the range of the parameter. -/
def Param.InRange (q : Param) (v : Value) : Prop :=
  ∀ n, v = .int n → (q.kind = .color → 0 ≤ n ∧ n ≤ 9) ∧ (q.isCount = true → 0 ≤ n)

/-- The values are in the ranges of their parameters, and something else holds. -/
def Param.Ranged (rest : Prop) : List Param → List Value → Prop
  | q :: qs, v :: vs => q.InRange v ∧ Ranged rest qs vs
  | _, _ => rest

theorem Param.ranged_iff {rest : Prop} {params : List Param} {values : List Value} :
    Ranged rest params values ↔ (∀ x ∈ params.zip values, x.1.InRange x.2) ∧ rest := by
  induction params generalizing values with
  | nil => simp [Ranged]
  | cons q qs ih =>
    cases values with
    | nil => simp [Ranged]
    | cons v vs => rw [Ranged, ih, List.zip_cons_cons, List.forall_mem_cons, and_assoc]

/-- What a primitive asks of its values together: copies within the largest side, and masks of the
shape of the grid. -/
structure Primitive.Fits (p : Primitive) (g : Grid) (values : List Value) : Prop where
  copies : ∀ sides, outputSides? p.name g.shape values = some sides →
    (∀ n, .int n ∈ values → 1 ≤ n) ∧ sides.1 ≤ 256 ∧ sides.2 ≤ 256
  masks : p.isMasked = true → ∀ m, .grid m ∈ values → m.shape = g.shape

namespace Args

variable {a : Args} {index : Nat} {q : Param} {v : Value}

/-- Reading an integer needs nothing but the right type. -/
theorem needs_int (hv : a.values[index]? = some v) (haccepts : q.kind.accepts v = true)
    (hkind : q.kind.isNumeric = true ∧ q.kind ≠ .color) (hfree : q.isCount = false) :
    Needs (q.InRange v) (fun n => v = .int n) (a.int index) := by
  obtain ⟨n, rfl⟩ := Param.Kind.exists_int hkind.1 haccepts
  rw [int_eq hv]
  refine .ok (fun m _ => ⟨fun hcolor => absurd hcolor hkind.2, fun hcount => ?_⟩) rfl
  rw [hfree] at hcount
  cases hcount

/-- Reading a color needs an integer from zero to nine. -/
theorem needs_color (hv : a.values[index]? = some v) (haccepts : q.kind.accepts v = true)
    (hkind : q.kind = .color) :
    Needs (q.InRange v) (fun _ => ∃ n, v = .int n) (a.color index) := by
  obtain ⟨n, rfl⟩ := Param.Kind.exists_int (by rw [hkind]; rfl) haccepts
  have hrange : (0 ≤ n ∧ n ≤ (maxColor : Int)) ↔ q.InRange (.int n) := by
    constructor
    · intro h m hm
      cases hm
      exact ⟨fun _ => h, fun _ => h.1⟩
    · intro h
      exact (h n rfl).1 hkind
  show Needs _ _ (a.int index >>= Grid.color?)
  rw [int_eq hv, ok_bind, Grid.color?]
  exact (Needs.check ⟨n, rfl⟩ rfl).congr hrange

/-- Reading a count needs an integer that is not negative. -/
theorem needs_count (hv : a.values[index]? = some v) (haccepts : q.kind.accepts v = true)
    (hkind : q.kind.isNumeric = true ∧ q.kind ≠ .color) (hcount : q.isCount = true) :
    Needs (q.InRange v) (fun k : Nat => v = .int k) (a.count index) := by
  obtain ⟨n, rfl⟩ := Param.Kind.exists_int hkind.1 haccepts
  have hrange : 0 ≤ n ↔ q.InRange (.int n) := by
    constructor
    · intro h m hm
      cases hm
      exact ⟨fun hcolor => absurd hcolor hkind.2, fun _ => h⟩
    · intro h
      exact (h n rfl).2 hcount
  show Needs _ _ (a.int index >>= fun n =>
    if 0 ≤ n then pure n.toNat
    else .error (Fault.invalidArgument a.primitive (.negative index n)))
  rw [int_eq hv, ok_bind]
  refine Needs.congr ?_ hrange
  split
  · next hn => exact .ok hn (by rw [Int.toNat_of_nonneg hn])
  · next hn => exact .error hn rfl

/-- Reading a grid needs nothing but the right type. -/
theorem needs_grid (hv : a.values[index]? = some v) (haccepts : q.kind.accepts v = true)
    (hkind : q.kind = .grid) : Needs (q.InRange v) (fun m => v = .grid m) (a.grid index) := by
  obtain ⟨m, rfl⟩ := Param.Kind.exists_grid (by rw [hkind]; rfl) haccepts
  rw [Args.grid, hv]
  refine .ok (fun n hn => ?_) rfl
  cases hn

end Args

/-! ## Operations that may fail -/

namespace Grid

theorem needs_checkPositive (primitive parameter : String) (count : Nat) :
    Needs (0 < count) (fun _ => True) (checkPositive primitive parameter count) := by
  rw [checkPositive]
  split
  · exact .error (by omega) rfl
  · exact .ok (by omega) trivial

theorem needs_checkOutput (primitive : String) (shape : Shape) :
    Needs (shape.height ≤ maxSide ∧ shape.width ≤ maxSide) (fun _ => True)
      (checkOutput primitive shape) := by
  rw [checkOutput]
  split
  · exact .error (by omega) rfl
  · exact .ok (by omega) trivial

theorem needs_copiesShape (primitive : String) (g : Grid) (rows cols : Nat) :
    Needs (g.height * rows ≤ maxCount ∧ g.width * cols ≤ maxCount)
      (· = ⟨g.height * rows, g.width * cols⟩) (copiesShape primitive g rows cols) :=
  Needs.check rfl rfl

/-- Scaling needs a factor, and sides within the limit. -/
theorem needs_scale (g : Grid) (k : Nat) :
    Needs (0 < k ∧ g.height * k ≤ maxSide ∧ g.width * k ≤ maxSide) (fun _ => True)
      (g.scale k) := by
  have hmax : maxSide ≤ maxCount := by decide
  have hchecks : Needs (0 < k ∧ (g.height * k ≤ maxCount ∧ g.width * k ≤ maxCount) ∧
      g.height * k ≤ maxSide ∧ g.width * k ≤ maxSide) (fun _ => True) (g.scale k) := by
    refine (needs_checkPositive _ _ k).bind fun _ _ _ =>
      (needs_copiesShape _ g k k).bind fun shape _ hshape => ?_
    subst hshape
    exact (needs_checkOutput _ ⟨g.height * k, g.width * k⟩).finish fun _ _ => ⟨_, rfl⟩
  exact hchecks.congr (by omega)

/-- Tiling a shape needs sides within the limit. -/
theorem needs_tileToSize (g : Grid) (height width : Nat) :
    Needs ((0 < height ∧ 0 < width) ∧ height ≤ maxSide ∧ width ≤ maxSide) (fun _ => True)
      (g.tileToSize height width) := by
  have hchecks : Needs (0 < height ∧ 0 < width ∧ height ≤ maxSide ∧ width ≤ maxSide)
      (fun _ => True) (g.tileToSize height width) :=
    (needs_checkPositive _ _ height).bind fun _ _ _ =>
      (needs_checkPositive _ _ width).bind fun _ _ _ =>
        (needs_checkOutput _ ⟨height, width⟩).finish fun _ _ => ⟨_, rfl⟩
  exact hchecks.congr (by omega)

variable {g : Grid}

/-- Copies of a grid need numbers of copies, and sides within the limit. -/
theorem needs_tileRepeat (hg : g.Valid) (rows cols : Nat) :
    Needs ((0 < rows ∧ 0 < cols) ∧ g.height * rows ≤ maxSide ∧ g.width * cols ≤ maxSide)
      (fun _ => True) (g.tileRepeat rows cols) := by
  have hmax : maxSide ≤ maxCount := by decide
  have hheight : 0 < rows → 0 < g.height * rows := Nat.mul_pos hg.1
  have hwidth : 0 < cols → 0 < g.width * cols := Nat.mul_pos hg.2.1
  have hchecks : Needs (0 < rows ∧ 0 < cols ∧
      (g.height * rows ≤ maxCount ∧ g.width * cols ≤ maxCount) ∧
      (0 < g.height * rows ∧ 0 < g.width * cols) ∧
        g.height * rows ≤ maxSide ∧ g.width * cols ≤ maxSide) (fun _ => True)
      (g.tileRepeat rows cols) := by
    refine (needs_checkPositive _ _ rows).bind fun _ _ _ =>
      (needs_checkPositive _ _ cols).bind fun _ _ _ =>
        (needs_copiesShape _ g rows cols).bind fun shape _ hshape => ?_
    subst hshape
    exact needs_tileToSize g _ _
  exact hchecks.congr (by omega)

theorem needs_tileH (hg : g.Valid) (count : Nat) :
    Needs (0 < count ∧ g.height ≤ maxSide ∧ g.width * count ≤ maxSide) (fun _ => True)
      (g.tileH count) := by
  have h := (needs_checkPositive "tile_h" "count" count).bind fun _ _ _ =>
    needs_tileRepeat hg 1 count
  exact h.congr (by omega)

theorem needs_tileV (hg : g.Valid) (count : Nat) :
    Needs (0 < count ∧ g.height * count ≤ maxSide ∧ g.width ≤ maxSide) (fun _ => True)
      (g.tileV count) := by
  have h := (needs_checkPositive "tile_v" "count" count).bind fun _ _ _ =>
    needs_tileRepeat hg count 1
  exact h.congr (by omega)

/-- Combining two grids needs one shape. -/
theorem needs_combine (operation : String) (f : Color → Color → Color) (g m : Grid) :
    Needs (m.shape = g.shape) (fun _ => True) (combine operation f g m) := by
  rw [combine]
  split
  · next hshape => exact .ok hshape.symm trivial
  · next hshape => exact .error (fun h => hshape h.symm) rfl

end Grid

/-! ## What primitives ask of their values together -/

/-- Primitives that copy nothing have no output of their own shape. -/
theorem outputSides?_eq_none {name : String}
    (h : ["scale", "tile_h", "tile_v", "tile_repeat", "tile_to_size"].contains name = false)
    (s : Shape) (values : List Value) : outputSides? name s values = none := by
  unfold outputSides?
  split
  case h_6 => rfl
  all_goals cases h

namespace Primitive

variable {α : Type} {x : Except Fault α} {p : Primitive} {g : Grid} {values : List Value}

/-- The primitive copies nothing and uses no mask. -/
structure Plain (p : Primitive) : Prop where
  copies : ["scale", "tile_h", "tile_v", "tile_repeat", "tile_to_size"].contains p.name = false
  masks : p.isMasked = false

/-- Values of a plain primitive fit together. -/
theorem Plain.fits (hp : p.Plain) : p.Fits g values where
  copies sides h := by
    rw [outputSides?_eq_none hp.copies] at h
    cases h
  masks h := by
    rw [hp.masks] at h
    cases h

/-- A plain primitive that has its arguments needs nothing more. -/
theorem Plain.needs_result (hp : p.Plain) (out : α) :
    Needs (p.Fits g values) (fun _ => True) (.ok out : Except Fault α) :=
  .ok hp.fits trivial

/-- A primitive that copies asks for copies, and for sides within the limit. -/
theorem needs_copies (counts : List Nat) (height width : Nat)
    (hsides : outputSides? p.name g.shape (counts.map fun k : Nat => Value.int k) =
      some (↑height, ↑width))
    (hmask : p.isMasked = false)
    (h : Needs ((∀ k ∈ counts, 0 < k) ∧ height ≤ maxSide ∧ width ≤ maxSide) (fun _ => True) x) :
    Needs (p.Fits g (counts.map fun k : Nat => Value.int k)) (fun _ => True) x := by
  refine h.congr ⟨fun hfits => ⟨fun sides hs => ?_, fun hm => ?_⟩, fun hfits => ?_⟩
  · rw [hsides] at hs
    cases hs
    refine ⟨fun n hn => ?_, Int.ofNat_le.2 hfits.2.1, Int.ofNat_le.2 hfits.2.2⟩
    obtain ⟨k, hk, heq⟩ := List.mem_map.1 hn
    cases heq
    exact Int.ofNat_le.2 (hfits.1 k hk)
  · rw [hmask] at hm
    cases hm
  · obtain ⟨hpos, hheight, hwidth⟩ := hfits.copies _ hsides
    refine ⟨fun k hk => ?_, Int.ofNat_le.1 hheight, Int.ofNat_le.1 hwidth⟩
    exact Int.ofNat_le.1 (hpos k (List.mem_map_of_mem hk))

/-- A primitive with one mask asks for the shape of the grid. -/
theorem needs_mask (m : Grid) (hcopies : outputSides? p.name g.shape values = none)
    (hmask : p.isMasked = true) (hm : ∀ m', .grid m' ∈ values ↔ m' = m)
    (h : Needs (m.shape = g.shape) (fun _ => True) x) :
    Needs (p.Fits g values) (fun _ => True) x := by
  refine h.congr ⟨fun hshape => ⟨fun sides hs => ?_, fun _ m' hm' => ?_⟩, fun hfits => ?_⟩
  · rw [hcopies] at hs
    cases hs
  · rw [(hm m').1 hm']
    exact hshape
  · exact hfits.masks hmask m ((hm m).2 rfl)

/-! ## Runs with the same parameters -/

/-- A plain primitive with one parameter, a color, needs a color. -/
theorem Plain.needs_ofColor (hp : p.Plain) {q : Param} (hq : q.kind = .color) {call : String}
    (h : Args.Match ⟨call, values⟩ [q]) (f : Color → α) :
    Needs (Param.Ranged (p.Fits g values) [q] values) (fun _ => True) (do
      pure (f (← (⟨call, values⟩ : Args).color 0))) := by
  obtain _ | ⟨h₀, ⟨⟩⟩ := h
  exact (Args.needs_color rfl h₀ hq).bind fun _ _ _ => hp.needs_result _

/-- A plain primitive that draws a stroke needs its length and a color. -/
theorem Plain.needs_stroke (hp : p.Plain) {call : String}
    (h : Args.Match ⟨call, values⟩ [.coordinate "row", .coordinate "col", .side "length",
      .color "color"]) (f : Int → Int → Nat → Color → α) :
    Needs (Param.Ranged (p.Fits g values) [.coordinate "row", .coordinate "col", .side "length",
      .color "color"] values) (fun _ => True) (do
        let row ← (⟨call, values⟩ : Args).int 0
        let col ← (⟨call, values⟩ : Args).int 1
        let length ← (⟨call, values⟩ : Args).count 2
        let color ← (⟨call, values⟩ : Args).color 3
        pure (f row col length color)) := by
  obtain _ | ⟨h₀, _ | ⟨h₁, _ | ⟨h₂, _ | ⟨h₃, ⟨⟩⟩⟩⟩⟩ := h
  exact (Args.needs_int rfl h₀ (by decide) rfl).bind fun _ _ _ =>
    (Args.needs_int rfl h₁ (by decide) rfl).bind fun _ _ _ =>
      (Args.needs_count rfl h₂ (by decide) rfl).bind fun _ _ _ =>
        (Args.needs_color rfl h₃ rfl).bind fun _ _ _ => hp.needs_result _

/-- A plain primitive that draws a rectangle needs its sides and a color. -/
theorem Plain.needs_rectangle (hp : p.Plain) {call : String}
    (h : Args.Match ⟨call, values⟩ [.coordinate "row", .coordinate "col", .side "height",
      .side "width", .color "color"]) (f : Int → Int → Nat → Nat → Color → α) :
    Needs (Param.Ranged (p.Fits g values) [.coordinate "row", .coordinate "col", .side "height",
      .side "width", .color "color"] values) (fun _ => True) (do
        let row ← (⟨call, values⟩ : Args).int 0
        let col ← (⟨call, values⟩ : Args).int 1
        let height ← (⟨call, values⟩ : Args).count 2
        let width ← (⟨call, values⟩ : Args).count 3
        let color ← (⟨call, values⟩ : Args).color 4
        pure (f row col height width color)) := by
  obtain _ | ⟨h₀, _ | ⟨h₁, _ | ⟨h₂, _ | ⟨h₃, _ | ⟨h₄, ⟨⟩⟩⟩⟩⟩⟩ := h
  exact (Args.needs_int rfl h₀ (by decide) rfl).bind fun _ _ _ =>
    (Args.needs_int rfl h₁ (by decide) rfl).bind fun _ _ _ =>
      (Args.needs_count rfl h₂ (by decide) rfl).bind fun _ _ _ =>
        (Args.needs_count rfl h₃ (by decide) rfl).bind fun _ _ _ =>
          (Args.needs_color rfl h₄ rfl).bind fun _ _ _ => hp.needs_result _

end Primitive

/-! ## The catalogue -/

/-- On values of the right types, the primitive needs them to be in the ranges of their parameters
and to fit together. -/
def Primitive.Demanding (p : Primitive) : Prop :=
  ∀ (g : Grid) (a : Args), g.Valid → a.Match p.params →
    Needs (Param.Ranged (p.Fits g a.values) p.params a.values) (fun _ => True) (p.run g a)

namespace Catalogue

open Primitive

/-- A primitive whose result is a grid needs what the run behind it needs. -/
theorem demanding_onGrids {name : String} {cost : Nat} {params : List Param}
    {run : Grid → Args → Except Fault Grid}
    (hrun : ∀ (g : Grid) (call : String) (values : List Value), g.Valid →
      Args.Match ⟨call, values⟩ params →
      Needs (Param.Ranged ((onGrids name cost params run).Fits g values) params values)
        (fun _ => True) (run g ⟨call, values⟩)) :
    (onGrids name cost params run).Demanding :=
  fun g a hg h => (hrun g a.primitive a.values hg h).map fun _ _ => trivial

theorem demanding_spatial : ∀ p ∈ spatial, p.Demanding := by
  simp only [spatial, List.forall_mem_cons]
  refine ⟨?_, ?_, ?_, ?_, ?_, ?_, ?_, List.forall_mem_nil _⟩ <;>
    refine demanding_onGrids fun g call values _ h => ?_
  · exact Plain.needs_result ⟨rfl, rfl⟩ g
  · obtain _ | ⟨h₀, ⟨⟩⟩ := h
    exact (Args.needs_int rfl h₀ (by decide) rfl).bind fun _ _ _ =>
      Plain.needs_result ⟨rfl, rfl⟩ _
  · exact Plain.needs_result ⟨rfl, rfl⟩ g.reflectH
  · exact Plain.needs_result ⟨rfl, rfl⟩ g.reflectV
  · exact Plain.needs_result ⟨rfl, rfl⟩ g.transpose
  · exact Plain.needs_ofColor ⟨rfl, rfl⟩ rfl h g.cropToContent
  · exact Plain.needs_ofColor ⟨rfl, rfl⟩ rfl h g.cropLargestObject

theorem demanding_tiling : ∀ p ∈ tiling, p.Demanding := by
  simp only [tiling, List.forall_mem_cons]
  refine ⟨?_, ?_, ?_, ?_, ?_, List.forall_mem_nil _⟩ <;>
    refine demanding_onGrids fun g call values hg h => ?_
  · obtain _ | ⟨h₀, ⟨⟩⟩ := h
    refine (Args.needs_count rfl h₀ (by decide) rfl).bind fun k _ hk => ?_
    subst hk
    exact needs_copies [k] (g.height * k) (g.width * k) rfl rfl
      ((g.needs_scale k).congr (by simp))
  · obtain _ | ⟨h₀, ⟨⟩⟩ := h
    refine (Args.needs_count rfl h₀ (by decide) rfl).bind fun n _ hn => ?_
    subst hn
    exact needs_copies [n] g.height (g.width * n) rfl rfl
      ((Grid.needs_tileH hg n).congr (by simp))
  · obtain _ | ⟨h₀, ⟨⟩⟩ := h
    refine (Args.needs_count rfl h₀ (by decide) rfl).bind fun n _ hn => ?_
    subst hn
    exact needs_copies [n] (g.height * n) g.width rfl rfl
      ((Grid.needs_tileV hg n).congr (by simp))
  · obtain _ | ⟨h₀, _ | ⟨h₁, ⟨⟩⟩⟩ := h
    refine (Args.needs_count rfl h₀ (by decide) rfl).bind fun m _ hm =>
      (Args.needs_count rfl h₁ (by decide) rfl).bind fun n _ hn => ?_
    subst hm hn
    exact needs_copies [m, n] (g.height * m) (g.width * n) rfl rfl
      ((Grid.needs_tileRepeat hg m n).congr (by simp))
  · obtain _ | ⟨h₀, _ | ⟨h₁, ⟨⟩⟩⟩ := h
    refine (Args.needs_count rfl h₀ (by decide) rfl).bind fun m _ hm =>
      (Args.needs_count rfl h₁ (by decide) rfl).bind fun n _ hn => ?_
    subst hm hn
    exact needs_copies [m, n] m n rfl rfl ((g.needs_tileToSize m n).congr (by simp))

theorem demanding_coloring : ∀ p ∈ coloring, p.Demanding := by
  simp only [coloring, List.forall_mem_cons]
  refine ⟨?_, ?_, ?_, ?_, ?_, ?_, ?_, List.forall_mem_nil _⟩ <;>
    refine demanding_onGrids fun g call values _ h => ?_
  · obtain _ | ⟨h₀, _ | ⟨h₁, _ | ⟨h₂, _ | ⟨h₃, ⟨⟩⟩⟩⟩⟩ := h
    exact (Args.needs_grid rfl h₀ rfl).bind fun _ _ _ =>
      (Args.needs_int rfl h₁ (by decide) rfl).bind fun _ _ _ =>
        (Args.needs_int rfl h₂ (by decide) rfl).bind fun _ _ _ =>
          (Args.needs_color rfl h₃ rfl).bind fun _ _ _ => Plain.needs_result ⟨rfl, rfl⟩ _
  · obtain _ | ⟨h₀, _ | ⟨h₁, _ | ⟨h₂, ⟨⟩⟩⟩⟩ := h
    exact (Args.needs_int rfl h₀ (by decide) rfl).bind fun _ _ _ =>
      (Args.needs_int rfl h₁ (by decide) rfl).bind fun _ _ _ =>
        (Args.needs_color rfl h₂ rfl).bind fun _ _ _ => Plain.needs_result ⟨rfl, rfl⟩ _
  · obtain _ | ⟨h₀, _ | ⟨h₁, ⟨⟩⟩⟩ := h
    refine (Args.needs_grid rfl h₀ rfl).bind fun m _ hm =>
      (Args.needs_color rfl h₁ rfl).bind fun _ _ hcolor => ?_
    obtain ⟨n, hn⟩ := hcolor
    subst hm hn
    exact needs_mask m (outputSides?_eq_none rfl _ _) rfl (by simp) (Grid.needs_combine _ _ g m)
  · obtain _ | ⟨h₀, _ | ⟨h₁, ⟨⟩⟩⟩ := h
    exact (Args.needs_color rfl h₀ rfl).bind fun _ _ _ =>
      (Args.needs_color rfl h₁ rfl).bind fun _ _ _ => Plain.needs_result ⟨rfl, rfl⟩ _
  · obtain _ | ⟨h₀, ⟨⟩⟩ := h
    refine (Args.needs_grid rfl h₀ rfl).bind fun m _ hm => ?_
    subst hm
    exact needs_mask m (outputSides?_eq_none rfl _ _) rfl (by simp) (Grid.needs_combine _ _ g m)
  · exact Plain.needs_ofColor ⟨rfl, rfl⟩ rfl h g.maskColor
  · obtain _ | ⟨h₀, _ | ⟨h₁, ⟨⟩⟩⟩ := h
    refine (Args.needs_grid rfl h₀ rfl).bind fun m _ hm =>
      (Args.needs_color rfl h₁ rfl).bind fun _ _ hcolor => ?_
    obtain ⟨n, hn⟩ := hcolor
    subst hm hn
    exact needs_mask m (outputSides?_eq_none rfl _ _) rfl (by simp) (Grid.needs_combine _ _ g m)

theorem demanding_drawing : ∀ p ∈ drawing, p.Demanding := by
  simp only [drawing, List.forall_mem_cons]
  refine ⟨?_, ?_, ?_, ?_, List.forall_mem_nil _⟩ <;>
    refine demanding_onGrids fun g call values _ h => ?_
  · exact Plain.needs_stroke ⟨rfl, rfl⟩ h g.drawLineH
  · exact Plain.needs_stroke ⟨rfl, rfl⟩ h g.drawLineV
  · exact Plain.needs_rectangle ⟨rfl, rfl⟩ h g.drawRect
  · exact Plain.needs_rectangle ⟨rfl, rfl⟩ h g.drawRectOutline

theorem demanding_queries : ∀ p ∈ queries, p.Demanding := by
  simp only [queries, List.forall_mem_cons]
  refine ⟨?_, ?_, ?_, ?_, List.forall_mem_nil _⟩ <;> rintro g ⟨call, values⟩ _ h
  · exact Plain.needs_ofColor ⟨rfl, rfl⟩ rfl h fun color => Value.positions (g.positions color)
  · exact Plain.needs_ofColor ⟨rfl, rfl⟩ rfl h fun color => Value.int (g.count color)
  · exact Plain.needs_ofColor ⟨rfl, rfl⟩ rfl h fun color => Value.bool (g.has color)
  · exact Plain.needs_result ⟨rfl, rfl⟩ _

/-- All primitives of the catalogue need their values in range and fitting together. -/
theorem demanding_all : ∀ p ∈ all, p.Demanding :=
  forall_mem_all.2
    ⟨demanding_spatial, demanding_tiling, demanding_coloring, demanding_drawing, demanding_queries⟩

end Catalogue

/-! ## Calls -/

namespace Primitive

variable {p : Primitive} {g : Grid} {given values : List Value}

/-- What a parameter accepts, in terms of values. -/
theorem accepts_iff {kind : Param.Kind} {v : Value} : kind.accepts v = true ↔
    (kind = .grid → ∃ m, v = .grid m) ∧ (kind ≠ .grid → ∃ n, v = .int n) := by
  cases kind <;> cases v <;> simp [Param.Kind.accepts]

/-- Defaults of parameters that all have one are the defaults that there are. -/
theorem filterMap_of_defaults? {params : List Param} (h : defaults? params = some values) :
    (params.filterMap fun q => q.default?.map Value.int) = values := by
  rw [defaults?_eq_some_iff] at h
  induction h with
  | nil => rfl
  | cons hv _ ih => rw [List.filterMap_cons, hv, ih]

/-- Resolving arguments needs their number and their types to be right, and fills in defaults. -/
theorem needs_resolve (p : Primitive) (given : List Value) :
    Needs ((p.mandatory ≤ given.length ∧ given.length ≤ p.arity) ∧
        ∀ q v, (q, v) ∈ p.params.zip given →
          (q.kind = .grid → ∃ m, v = .grid m) ∧ (q.kind ≠ .grid → ∃ n, v = .int n))
      (· = p.filled given) (p.resolve given) := by
  have htypes : (∀ q v, (q, v) ∈ p.params.zip given →
      (q.kind = .grid → ∃ m, v = .grid m) ∧ (q.kind ≠ .grid → ∃ n, v = .int n)) ↔
      ∀ (i : Nat) q v, p.params[i]? = some q → given[i]? = some v → q.kind.accepts v = true := by
    simp only [accepts_iff]
    exact forall_mem_zip_iff
  rw [resolve]
  by_cases htakes : p.takes given.length = true
  · rw [if_pos htakes]
    cases hkind : kindFault? p.name 0 p.params given with
    | some fault =>
      obtain ⟨index, expected, rfl⟩ := of_kindFault? hkind
      refine .error (fun h => ?_) rfl
      rw [kindFault?_eq_none_iff.2 (htypes.1 h.2)] at hkind
      cases hkind
    | none =>
      obtain ⟨rest, hrest⟩ := exists_defaults (default_of_takes htakes)
      rw [hrest]
      refine .ok ⟨takes_iff.1 htakes, htypes.2 (kindFault?_eq_none_iff.1 hkind)⟩ ?_
      rw [filled, filterMap_of_defaults? hrest]
  · rw [if_neg htakes]
    exact .error (fun h => htakes (takes_iff.2 h.1)) rfl

/-- Arguments of the right number and types are proper when they are in range and fit together. -/
theorem proper_iff (hnumber : p.mandatory ≤ given.length ∧ given.length ≤ p.arity)
    (htypes : ∀ q v, (q, v) ∈ p.params.zip given →
      (q.kind = .grid → ∃ m, v = .grid m) ∧ (q.kind ≠ .grid → ∃ n, v = .int n)) :
    p.Proper g given ↔
      Param.Ranged (p.Fits g (p.filled given)) p.params (p.filled given) := by
  rw [Param.ranged_iff]
  constructor
  · intro h
    refine ⟨fun x hx n hn => ?_, h.copies, h.masks⟩
    obtain ⟨q, v⟩ := x
    cases hn
    exact ⟨h.colors q n hx, h.counts q n hx⟩
  · rintro ⟨hrange, hfits⟩
    exact ⟨hnumber, htypes, fun q n hq => (hrange _ hq n rfl).1,
      fun q n hq => (hrange _ hq n rfl).2, hfits.copies, hfits.masks⟩

/-- A call needs proper arguments. -/
theorem Demanding.needs_apply (hdemanding : p.Demanding) (hheedful : p.Heedful) (hg : g.Valid)
    (given : List Value) : Needs (p.Proper g given) (fun _ => True) (p.apply g given) := by
  have hresolve := p.needs_resolve given
  rw [apply]
  cases hvalues : p.resolve given with
  | error fault =>
    rw [hvalues] at hresolve
    cases hresolve with
    | error hgiven hfault => exact .error (fun h => hgiven ⟨h.number, h.types⟩) hfault
  | ok values =>
    rw [hvalues] at hresolve
    cases hresolve with
    | ok hgiven hfilled =>
      have hrun := hdemanding g ⟨p.name, values⟩ hg (match_resolve hheedful hvalues)
      subst hfilled
      exact hrun.congr (proper_iff hgiven.1 hgiven.2).symm

end Primitive

namespace Registry

/-- **Calls of the catalogue fail exactly on bad arguments.**  For every primitive that is
registered, every valid grid and every list of values, the call has a result if and only if the
arguments are proper; and when it fails, the fault is one of their number, of their types, of a
color, of another value or of a shape. -/
theorem apply_needs_proper {name : String} {p : Primitive} (hp : standard.get? name = some p)
    {g : Grid} (hg : g.Valid) (given : List Value) :
    ((∃ v, standard.apply name g given = .ok v) ↔ p.Proper g given) ∧
    ∀ fault, standard.apply name g given = .error fault → fault.blamesArguments = true := by
  have hdemanding : p.Demanding := by
    rcases of_get?_registerAll hp with hall | hempty
    · exact Catalogue.demanding_all p hall
    · cases hempty
  have happly : standard.apply name g given = p.apply g given := by
    rw [apply, find, hp]
    rfl
  have hneeds := hdemanding.needs_apply (heedful_of_get?_standard hp) hg given
  rw [happly]
  exact ⟨hneeds.exists_ok_iff, fun fault => hneeds.blames⟩

/-- Two rows of three cells can be repeated eighty-five times side by side, which makes rows of
`255` cells; once more is too much. -/
theorem apply_needs_proper_tileRepeat :
    let g : Grid := ⟨2, 3, #[1, 2, 3, 4, 5, 6], rfl⟩
    g.Valid ∧ ∃ p, standard.get? "tile_repeat" = some p ∧
      p.Proper g [.int 3, .int 85] ∧
      (∃ v, standard.apply "tile_repeat" g [.int 3, .int 85] = .ok v) ∧
      ¬ p.Proper g [.int 3, .int 86] ∧
      ∃ fault, standard.apply "tile_repeat" g [.int 3, .int 86] = .error fault ∧
        fault.blamesArguments = true := by
  intro g
  have hg : g.Valid := by decide
  have hp : standard.get? "tile_repeat" = some Catalogue.tiling[3] := rfl
  have hzip : Catalogue.tiling[3].params.zip [Value.int 3, .int 85] =
      [(.factor "rows", .int 3), (.factor "cols", .int 85)] := rfl
  have hfilled : Catalogue.tiling[3].filled [Value.int 3, .int 85] = [.int 3, .int 85] := rfl
  have hproper : Catalogue.tiling[3].Proper g [.int 3, .int 85] := by
    refine ⟨by decide, fun q v hq => ?_, fun q n hq hcolor => ?_, fun q n hq _ => ?_,
      fun sides h => ?_, nofun⟩
    · rw [hzip] at hq
      simp only [List.mem_cons, List.not_mem_nil, or_false, Prod.mk.injEq] at hq
      rcases hq with ⟨rfl, rfl⟩ | ⟨rfl, rfl⟩ <;> exact ⟨nofun, fun _ => ⟨_, rfl⟩⟩
    · rw [hfilled, hzip] at hq
      simp only [List.mem_cons, List.not_mem_nil, or_false, Prod.mk.injEq] at hq
      rcases hq with ⟨rfl, -⟩ | ⟨rfl, -⟩ <;> cases hcolor
    · rw [hfilled, hzip] at hq
      simp only [List.mem_cons, List.not_mem_nil, or_false, Prod.mk.injEq, Value.int.injEq] at hq
      omega
    · obtain rfl : sides = (6, 255) := Option.some.inj (h.symm.trans rfl)
      refine ⟨fun n hn => ?_, by decide, by decide⟩
      rw [hfilled] at hn
      simp only [List.mem_cons, List.not_mem_nil, or_false, Value.int.injEq] at hn
      omega
  have hfails : standard.apply "tile_repeat" g [.int 3, .int 86] =
      .error (.invalidArgument "tile_to_size" (.tooLarge ⟨6, 258⟩ 256)) :=
    eq_error_of_fault? (by decide +kernel)
  have hmore := apply_needs_proper hp hg [.int 3, .int 86]
  refine ⟨hg, _, hp, hproper, (apply_needs_proper hp hg _).1.2 hproper, fun h => ?_,
    _, hfails, hmore.2 _ hfails⟩
  obtain ⟨v, hv⟩ := hmore.1.2 h
  rw [hfails] at hv
  cases hv

end Registry

end GridRepair
