/-
# Components

A set of cells is connected when all its cells have one color and a path through cells of the set
leads from each of them to each other one.  The components of a grid are the maximal connected sets
of the colors other than the background.

The component of a cell is the set of the cells that are joined to it
(`Grid.maximal_component`, `Grid.eq_component`), so two components that share a cell are equal
(`Grid.IsComponent.eq_of_mem`).  A list of all components, in the order of their first cells, is
therefore determined by the grid (`Grid.Components.unique`).
-/
import Mathlib.Algebra.BigOperators.Group.Finset.Basic
import Mathlib.Data.Finset.Max
import Mathlib.Data.List.Sort
import Mathlib.Data.Prod.Lex
import Mathlib.Order.Minimal
import GridRepair.Proofs.Connection
import GridRepair.Proofs.Cropping

namespace GridRepair

/-! ## Reading order -/

namespace Cell

variable {p q : Cell} {S T : Finset Cell}

/-- The first cell comes before the second one when the rows are read one after another. -/
def Before (p q : Cell) : Prop := p.row < q.row ∨ (p.row = q.row ∧ p.col < q.col)

/-- Of two cells, at most one comes before the other. -/
theorem Before.asymm (h : p.Before q) : ¬ q.Before p := by
  unfold Before at *
  omega

/-- The cell is the first one of the set. -/
def IsFirst (p : Cell) (S : Finset Cell) : Prop := p ∈ S ∧ ∀ q ∈ S, q = p ∨ p.Before q

/-- There is one first cell at most. -/
theorem IsFirst.unique (hp : p.IsFirst S) (hq : q.IsFirst S) : p = q := by
  rcases hp.2 q hq.1 with heq | hpq
  · exact heq.symm
  · rcases hq.2 p hp.1 with heq | hqp
    · exact heq
    · exact absurd hqp hpq.asymm

/-- A set with a cell has a first one. -/
theorem exists_isFirst (h : S.Nonempty) : ∃ p : Cell, p.IsFirst S := by
  obtain ⟨p, hp, hmin⟩ := S.exists_min_image (fun q => toLex (q.row, q.col)) h
  refine ⟨p, hp, fun q hq => ?_⟩
  have hle := Prod.Lex.toLex_le_toLex.1 (hmin q hq)
  obtain ⟨r, c⟩ := p
  obtain ⟨r', c'⟩ := q
  unfold Before
  simp only [Cell.mk.injEq]
  dsimp only at hle
  omega

/-- The first cell of the one set comes before the first cell of the other one. -/
def Precedes (S T : Finset Cell) : Prop := ∃ p q : Cell, p.IsFirst S ∧ q.IsFirst T ∧ p.Before q

instance : Std.Irrefl Precedes where
  irrefl S h := by
    obtain ⟨p, q, hp, hq, hpq⟩ := h
    obtain rfl := hp.unique hq
    exact hpq.asymm hpq

instance : Std.Antisymm Precedes where
  antisymm S T hST hTS := by
    obtain ⟨p, q, hp, hq, hpq⟩ := hST
    obtain ⟨q', p', hq', hp', hqp⟩ := hTS
    obtain rfl := hp.unique hp'
    obtain rfl := hq.unique hq'
    exact absurd hqp hpq.asymm

end Cell

/-- The cells of a shape are listed in reading order. -/
theorem Shape.pairwise_cells (s : Shape) : s.cells.Pairwise Cell.Before := by
  unfold Shape.cells
  rw [List.pairwise_flatMap]
  constructor
  · intro r _
    rw [List.pairwise_map]
    exact List.pairwise_lt_range.imp fun hlt => .inr ⟨rfl, hlt⟩
  · refine List.pairwise_lt_range.imp fun {r r'} hlt p hp q hq => ?_
    obtain ⟨c, -, rfl⟩ := List.mem_map.1 hp
    obtain ⟨c', -, rfl⟩ := List.mem_map.1 hq
    exact .inl hlt

/-- The cells of a shape are distinct. -/
theorem Shape.nodup_cells (s : Shape) : s.cells.Nodup :=
  s.pairwise_cells.imp fun {p q} hpq heq => by
    obtain rfl := heq
    exact hpq.asymm hpq

namespace Grid

variable {g : Grid} {bg color : Color} {p q : Cell} {S T : Finset Cell}

/-! ## Connected sets -/

/-- All cells of the set have the color, and a path inside the set leads from each of them to each
other one. -/
structure Connected (g : Grid) (color : Color) (S : Finset Cell) : Prop where
  nonempty : S.Nonempty
  get?_eq : ∀ p ∈ S, g.get? p.row p.col = some color
  path : ∀ p ∈ S, ∀ q ∈ S,
    Relation.ReflTransGen (fun a b => a ∈ S ∧ b ∈ S ∧ a.Adjacent b) p q

/-- A maximal set of connected cells of one color that is not the background. -/
def IsComponent (g : Grid) (bg : Color) (S : Finset Cell) : Prop :=
  ∃ color, color ≠ bg ∧ Maximal (g.Connected color) S

/-- Links go both ways. -/
theorem Linked.symm (h : g.Linked color p q) : g.Linked color q p :=
  ⟨h.adjacent.symm, h.right, h.left⟩

/-- Paths go both ways. -/
theorem Joined.symm (h : g.Joined color p q) : g.Joined color q p := by
  induction h with
  | refl => exact .refl
  | tail _ hlink ih => exact .head hlink.symm ih

/-- The cells of a connected set are joined. -/
theorem Connected.joined (h : g.Connected color S) (hp : p ∈ S) (hq : q ∈ S) :
    g.Joined color p q := by
  refine Relation.ReflTransGen.mono ?_ p q (h.path p hp q hq)
  intro a b hab
  exact ⟨hab.2.2, h.get?_eq a hab.1, h.get?_eq b hab.2.1⟩

/-! ## The component of a cell -/

/-- The cells that are joined to a cell of the color. -/
def component (g : Grid) (color : Color) (p : Cell) : Finset Cell :=
  (g.region color p (Marks.none g.shape)).1.toFinset

theorem mem_component (hp : g.get? p.row p.col = some color) :
    q ∈ g.component color p ↔ g.Joined color p q := by
  unfold component
  rw [List.mem_toFinset, mem_region_iff rfl hp fun r _ => Marks.has_none g.shape r]

theorem self_mem_component (hp : g.get? p.row p.col = some color) : p ∈ g.component color p :=
  (mem_component hp).2 .refl

/-- The component of a cell is connected. -/
theorem connected_component (hp : g.get? p.row p.col = some color) :
    g.Connected color (g.component color p) where
  nonempty := ⟨p, self_mem_component hp⟩
  get?_eq := fun _ hq => ((mem_component hp).1 hq).get?_eq hp
  path := by
    intro a ha b hb
    have hpa := (mem_component hp).1 ha
    have hab : g.Joined color a b := hpa.symm.trans ((mem_component hp).1 hb)
    -- every cell on the way from `a` is joined to `p` by way of `a`
    induction hab with
    | refl => exact .refl
    | tail hpath hlink ih =>
      have hmem := (mem_component hp).2 (hpa.trans hpath)
      exact (ih hmem).tail ⟨hmem, hb, hlink.adjacent⟩

/-- A connected set lies in the component of each of its cells. -/
theorem Connected.subset_component (h : g.Connected color S) (hp : p ∈ S) :
    S ⊆ g.component color p := fun _ hq =>
  (mem_component (h.get?_eq p hp)).2 (h.joined hp hq)

/-- The component of a cell is a maximal connected set. -/
theorem maximal_component (hp : g.get? p.row p.col = some color) :
    Maximal (g.Connected color) (g.component color p) :=
  ⟨connected_component hp, fun _ hT hle => hT.subset_component (hle (self_mem_component hp))⟩

/-- A maximal connected set is the component of each of its cells. -/
theorem eq_component (h : Maximal (g.Connected color) S) (hp : p ∈ S) :
    S = g.component color p := by
  have hcolor := h.prop.get?_eq p hp
  exact (h.eq_of_ge (connected_component hcolor) (h.prop.subset_component hp)).symm

namespace IsComponent

/-- A component has a cell. -/
theorem nonempty (h : g.IsComponent bg S) : S.Nonempty := by
  obtain ⟨color, -, hmax⟩ := h
  exact hmax.prop.nonempty

/-- The cells of a component are occupied. -/
theorem occupied (h : g.IsComponent bg S) (hp : p ∈ S) : g.Occupied bg p := by
  obtain ⟨color, hne, hmax⟩ := h
  exact ⟨color, hmax.prop.get?_eq p hp, hne⟩

/-- Every occupied cell is in a component. -/
theorem of_cell (hp : g.get? p.row p.col = some color) (hne : color ≠ bg) :
    g.IsComponent bg (g.component color p) :=
  ⟨color, hne, maximal_component hp⟩

/-- Two components that share a cell are equal. -/
theorem eq_of_mem (hS : g.IsComponent bg S) (hT : g.IsComponent bg T) (hpS : p ∈ S)
    (hpT : p ∈ T) : S = T := by
  obtain ⟨color, -, hmaxS⟩ := hS
  obtain ⟨color', -, hmaxT⟩ := hT
  obtain rfl : color = color' :=
    Option.some.inj ((hmaxS.prop.get?_eq p hpS).symm.trans (hmaxT.prop.get?_eq p hpT))
  rw [eq_component hmaxS hpS, ← eq_component hmaxT hpT]

end IsComponent

/-! ## The list of components -/

/-- The list holds the components of the grid, in the order of their first cells. -/
structure Components (g : Grid) (bg : Color) (cs : List (Finset Cell)) : Prop where
  mem_iff : ∀ S, S ∈ cs ↔ g.IsComponent bg S
  sorted : cs.Pairwise Cell.Precedes

namespace Components

variable {cs ds : List (Finset Cell)}

/-- No component is listed twice. -/
theorem nodup (h : g.Components bg cs) : cs.Nodup := h.sorted.nodup

/-- The list of the components is determined by the grid. -/
theorem unique (hc : g.Components bg cs) (hd : g.Components bg ds) : cs = ds := by
  refine hc.sorted.eq_of_mem_iff hd.sorted fun S => ?_
  rw [hc.mem_iff, hd.mem_iff]

/-- The listed components hold as many cells as are occupied. -/
theorem sum_card (h : g.Components bg cs) :
    (cs.map Finset.card).sum = (g.content bg).length := by
  have hdisjoint : (cs.toFinset : Set (Finset Cell)).PairwiseDisjoint id := by
    intro S hS T hT hne
    rw [Finset.mem_coe, List.mem_toFinset, h.mem_iff] at hS hT
    show Disjoint S T
    rw [Finset.disjoint_left]
    exact fun p hpS hpT => hne (hS.eq_of_mem hT hpS hpT)
  have hunion : cs.toFinset.biUnion id = (g.content bg).toFinset := by
    ext p
    rw [List.mem_toFinset, mem_content_iff_occupied, Finset.mem_biUnion]
    constructor
    · rintro ⟨S, hS, hp⟩
      rw [List.mem_toFinset, h.mem_iff] at hS
      exact hS.occupied hp
    · rintro ⟨color, hcolor, hne⟩
      refine ⟨g.component color p, ?_, self_mem_component hcolor⟩
      rw [List.mem_toFinset, h.mem_iff]
      exact .of_cell hcolor hne
  calc (cs.map Finset.card).sum = cs.toFinset.sum Finset.card := (List.sum_toFinset _ h.nodup).symm
    _ = (cs.toFinset.biUnion id).card := (Finset.card_biUnion hdisjoint).symm
    _ = (g.content bg).toFinset.card := by rw [hunion]
    _ = (g.content bg).length := List.toFinset_card_of_nodup (g.shape.nodup_cells.filter _)

end Components

end Grid

end GridRepair
