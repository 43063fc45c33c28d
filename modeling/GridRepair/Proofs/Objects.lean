/-
# Objects

The objects of a grid depict its components.  The sweep that finds them keeps one invariant,
`Grid.Sweeping`: the marked cells are those of the components in which a cell was visited.  So a
cell that is neither background nor marked is the first cell of its component, and the search from
it finds the whole component (`Grid.Sweeping.find`).

When all cells are visited, every component was found, at its first cell
(`Grid.exists_components`).
-/
import GridRepair.Proofs.Components

namespace GridRepair

namespace Grid

variable {g : Grid} {bg color : Color} {seen : Marks} {visited ps : List Cell} {p q : Cell}
  {S : Finset Cell} {cs : List (Finset Cell)} {o : Object} {os : List Object}

/-! ## What an object says -/

/-- The object has the color of the cells, their number, and the tight box around them, which is
the smallest one that covers them. -/
structure Depicts (g : Grid) (S : Finset Cell) (o : Object) : Prop where
  get?_eq : ∀ p ∈ S, g.get? p.row p.col = some o.color
  size_eq : o.size = S.card
  tight : o.box.Tight (· ∈ S)
  least : ∀ b : Box, (∀ p ∈ S, b.contains p = true) →
    ∀ p, o.box.contains p = true → b.contains p = true

/-- A set of cells is depicted by one object at most. -/
theorem rightUnique_depicts (g : Grid) : Relator.RightUnique g.Depicts := by
  intro S o o' h h'
  obtain ⟨p, hp, -⟩ := h.tight.top
  have hcolor := Option.some.inj ((h.get?_eq p hp).symm.trans (h'.get?_eq p hp))
  have hbox := h.tight.unique h'.tight
  have hsize := h.size_eq.trans h'.size_eq.symm
  obtain ⟨color, box, size⟩ := o
  simp only at hcolor hbox hsize
  rw [hcolor, hbox, hsize]

/-- The box of an object is inside the grid. -/
theorem Depicts.fits (h : g.Depicts S o) : o.box.fits g.shape = true :=
  h.tight.fits fun p hp => contains_of_get? (h.get?_eq p hp)

/-- Every object of a list of depictions depicts something. -/
theorem exists_depicts (h : List.Forall₂ g.Depicts cs os) (ho : o ∈ os) : ∃ S, g.Depicts S o := by
  induction h with
  | nil => cases ho
  | cons hfirst _ ih =>
    rcases List.mem_cons.1 ho with rfl | ho
    · exact ⟨_, hfirst⟩
    · exact ih ho

/-- Objects are as large as what they depict. -/
theorem map_size_eq (h : List.Forall₂ g.Depicts cs os) :
    os.map Object.size = cs.map Finset.card := by
  induction h with
  | nil => rfl
  | cons hfirst _ ih => rw [List.map_cons, List.map_cons, hfirst.size_eq, ih]

/-! ## The sweep -/

/-- The state of a sweep: the marked cells are those of the components in which a cell was
visited. -/
structure Sweeping (g : Grid) (bg : Color) (visited : List Cell) (seen : Marks) : Prop where
  shape_eq : seen.shape = g.shape
  has_iff : ∀ q, seen.has q = true ↔ ∃ S, g.IsComponent bg S ∧ q ∈ S ∧ ∃ p ∈ visited, p ∈ S

namespace Sweeping

/-- At first nothing is visited and nothing is marked. -/
theorem start (g : Grid) (bg : Color) : Sweeping g bg [] (Marks.none g.shape) where
  shape_eq := rfl
  has_iff := by
    intro q
    rw [Marks.has_none]
    constructor
    · intro h
      cases h
    · rintro ⟨S, -, -, p, hp, -⟩
      cases hp

/-- A visit to a cell whose components are marked already changes nothing. -/
theorem skip (h : Sweeping g bg visited seen)
    (hp : ∀ S, g.IsComponent bg S → p ∈ S → seen.has p = true) :
    Sweeping g bg (visited ++ [p]) seen where
  shape_eq := h.shape_eq
  has_iff := by
    intro q
    rw [h.has_iff]
    constructor
    · rintro ⟨S, hS, hq, r, hr, hrS⟩
      exact ⟨S, hS, hq, r, List.mem_append_left _ hr, hrS⟩
    · rintro ⟨S, hS, hq, r, hr, hrS⟩
      rcases List.mem_append.1 hr with hr | hr
      · exact ⟨S, hS, hq, r, hr, hrS⟩
      · obtain rfl := List.mem_singleton.1 hr
        -- the component of the visited cell was met before
        obtain ⟨T, hT, hrT, hmet⟩ := (h.has_iff r).1 (hp S hS hrS)
        obtain rfl := hS.eq_of_mem hT hrS hrT
        exact ⟨S, hS, hq, hmet⟩

/-- No cell of the component of an unmarked cell is marked. -/
theorem fresh (h : Sweeping g bg visited seen) (hp : g.get? p.row p.col = some color)
    (hne : color ≠ bg) (hnew : seen.has p = false) :
    ∀ q, g.Joined color p q → seen.has q = false := by
  intro q hq
  by_contra hmarked
  rw [Bool.not_eq_false, h.has_iff] at hmarked
  obtain ⟨S, hS, hqS, hmet⟩ := hmarked
  obtain rfl := hS.eq_of_mem (.of_cell hp hne) hqS ((mem_component hp).2 hq)
  have hold := (h.has_iff p).2 ⟨_, hS, self_mem_component hp, hmet⟩
  rw [hnew] at hold
  cases hold

/-- A visit to an unmarked cell marks its component. -/
theorem find (h : Sweeping g bg visited seen) (hp : g.get? p.row p.col = some color)
    (hne : color ≠ bg) (hnew : seen.has p = false) :
    Sweeping g bg (visited ++ [p]) (g.region color p seen).2 := by
  have hspread : Spreading g seen [] (g.region color p seen).2 (g.region color p seen).1 :=
    spreading_region h.shape_eq (contains_of_get? hp)
  refine ⟨hspread.shape_eq, fun q => ?_⟩
  rw [hspread.has_iff, List.nil_append, mem_region_iff h.shape_eq hp (h.fresh hp hne hnew),
    ← mem_component hp, h.has_iff]
  constructor
  · rintro (hq | ⟨S, hS, hq, r, hr, hrS⟩)
    · exact ⟨_, .of_cell hp hne, hq, p, List.mem_append_right _ (List.mem_singleton_self p),
        self_mem_component hp⟩
    · exact ⟨S, hS, hq, r, List.mem_append_left _ hr, hrS⟩
  · rintro ⟨S, hS, hq, r, hr, hrS⟩
    rcases List.mem_append.1 hr with hr | hr
    · exact .inr ⟨S, hS, hq, r, hr, hrS⟩
    · obtain rfl := List.mem_singleton.1 hr
      obtain rfl := hS.eq_of_mem (.of_cell hp hne) hrS (self_mem_component hp)
      exact .inl hq

/-- The object that is found at an unmarked cell depicts the component of the cell. -/
theorem depicts (h : Sweeping g bg visited seen) (hp : g.get? p.row p.col = some color)
    (hne : color ≠ bg) (hnew : seen.has p = false) :
    g.Depicts (g.component color p)
      ⟨color, Box.around p (g.region color p seen).1, (g.region color p seen).1.length⟩ := by
  have hmem : ∀ q, q ∈ (g.region color p seen).1 ↔ q ∈ g.component color p := by
    intro q
    rw [mem_region_iff h.shape_eq hp (h.fresh hp hne hnew), mem_component hp]
  have hnodup : (g.region color p seen).1.Nodup :=
    (spreading_region h.shape_eq (contains_of_get? hp)).nodup
  have htight : (Box.around p (g.region color p seen).1).Tight (· ∈ g.component color p) := by
    refine (Box.tight_around p (g.region color p seen).1).congr fun q => ?_
    rw [List.mem_cons, hmem]
    refine or_iff_right_of_imp ?_
    rintro rfl
    exact self_mem_component hp
  constructor
  case get?_eq => exact fun q hq => ((mem_component hp).1 hq).get?_eq hp
  case size_eq =>
    show (g.region color p seen).1.length = _
    rw [← List.toFinset_card_of_nodup hnodup]
    congr 1
    ext q
    rw [List.mem_toFinset, hmem]
  case tight => exact htight
  case least => exact fun b hb q hq => htight.least hb hq

end Sweeping

/-! ## The components that begin in a list of cells -/

/-- The list holds the components whose first cell is one of the given ones, in the order of these
cells. -/
structure ComponentsFrom (g : Grid) (bg : Color) (ps : List Cell) (cs : List (Finset Cell)) :
    Prop where
  mem_iff : ∀ S, S ∈ cs ↔ g.IsComponent bg S ∧ ∃ p ∈ ps, p.IsFirst S
  sorted : cs.Pairwise Cell.Precedes

namespace ComponentsFrom

theorem nil (g : Grid) (bg : Color) : ComponentsFrom g bg [] [] where
  mem_iff := by simp
  sorted := .nil

/-- A cell at which no component begins adds none. -/
theorem skip (h : ComponentsFrom g bg ps cs) (hp : ∀ S, g.IsComponent bg S → ¬ p.IsFirst S) :
    ComponentsFrom g bg (p :: ps) cs where
  mem_iff := by
    intro S
    rw [h.mem_iff, List.exists_mem_cons_iff]
    exact and_congr_right fun hS => (or_iff_right (hp S hS)).symm
  sorted := h.sorted

/-- The component that begins at a cell comes before those that begin at later cells. -/
theorem cons (h : ComponentsFrom g bg ps cs) (hS : g.IsComponent bg S) (hp : p.IsFirst S)
    (hlater : ∀ q ∈ ps, p.Before q) : ComponentsFrom g bg (p :: ps) (S :: cs) where
  mem_iff := by
    intro T
    rw [List.mem_cons, h.mem_iff, List.exists_mem_cons_iff]
    constructor
    · rintro (rfl | ⟨hT, hfirst⟩)
      · exact ⟨hS, .inl hp⟩
      · exact ⟨hT, .inr hfirst⟩
    · rintro ⟨hT, hpT | hfirst⟩
      · exact .inl (hT.eq_of_mem hS hpT.1 hp.1)
      · exact .inr ⟨hT, hfirst⟩
  sorted := by
    rw [List.pairwise_cons]
    refine ⟨fun T hT => ?_, h.sorted⟩
    obtain ⟨-, q, hq, hfirst⟩ := (h.mem_iff T).1 hT
    exact ⟨p, q, hp, hfirst, hlater q hq⟩

/-- The components that begin in any cell of the grid are all components. -/
theorem components (h : ComponentsFrom g bg g.shape.cells cs) : g.Components bg cs where
  mem_iff := by
    intro S
    rw [h.mem_iff]
    refine and_iff_left_of_imp fun hS => ?_
    obtain ⟨p, hp⟩ := Cell.exists_isFirst hS.nonempty
    exact ⟨p, Shape.mem_cells.2 (hS.occupied hp.1).contains, hp⟩
  sorted := h.sorted

end ComponentsFrom

namespace Sweeping

/-- At a cell whose components are marked already, none of them begins. -/
theorem not_isFirst (h : Sweeping g bg visited seen)
    (hp : ∀ S, g.IsComponent bg S → p ∈ S → seen.has p = true)
    (hvisited : ∀ q ∈ visited, q.Before p) : ∀ S, g.IsComponent bg S → ¬ p.IsFirst S := by
  intro S hS hfirst
  obtain ⟨T, hT, hpT, q, hq, hqT⟩ := (h.has_iff p).1 (hp S hS hfirst.1)
  obtain rfl := hS.eq_of_mem hT hfirst.1 hpT
  have hbefore := hvisited q hq
  rcases hfirst.2 q hqT with rfl | hafter
  · exact hbefore.asymm hbefore
  · exact hbefore.asymm hafter

/-- At an unmarked cell that is not background, its component begins. -/
theorem isFirst (h : Sweeping g bg visited seen) (hp : g.get? p.row p.col = some color)
    (hne : color ≠ bg) (hnew : seen.has p = false) (hcells : visited ++ p :: ps = g.shape.cells)
    (hlater : ∀ q ∈ ps, p.Before q) : p.IsFirst (g.component color p) := by
  refine ⟨self_mem_component hp, fun q hq => ?_⟩
  have hcell : q ∈ visited ++ p :: ps := by
    rw [hcells, Shape.mem_cells]
    exact contains_of_get? (((mem_component hp).1 hq).get?_eq hp)
  rcases List.mem_append.1 hcell with hvisited | hrest
  · have hold := (h.has_iff p).2 ⟨_, .of_cell hp hne, self_mem_component hp, q, hvisited, hq⟩
    rw [hnew] at hold
    cases hold
  · rcases List.mem_cons.1 hrest with heq | hps
    · exact .inl heq
    · exact .inr (hlater q hps)

/-- What is left of a sweep finds the components that begin in the cells that are left. -/
theorem exists_componentsFrom (h : Sweeping g bg visited seen)
    (hcells : visited ++ ps = g.shape.cells) :
    ∃ cs, g.ComponentsFrom bg ps cs ∧ List.Forall₂ g.Depicts cs (g.sweep bg ps seen) := by
  induction ps generalizing visited seen with
  | nil => exact ⟨[], .nil g bg, .nil⟩
  | cons p ps ih =>
    have hnext : visited ++ [p] ++ ps = g.shape.cells := by
      rw [List.append_assoc]
      exact hcells
    have horder := hcells ▸ g.shape.pairwise_cells
    rw [List.pairwise_append, List.pairwise_cons] at horder
    obtain ⟨-, ⟨hlater, -⟩, hvisited⟩ := horder
    have hin : g.shape.Contains p := by
      rw [← Shape.mem_cells, ← hcells]
      exact List.mem_append_right _ List.mem_cons_self
    have hp := get?_eq_some hin.1 hin.2
    rw [sweep, hp]
    dsimp only
    by_cases hskip : g.colorAt p.row p.col hin.1 hin.2 = bg ∨ seen.has p = true
    · rw [if_pos hskip]
      have hold : ∀ S, g.IsComponent bg S → p ∈ S → seen.has p = true := by
        intro S hS hpS
        obtain ⟨color, hcolor, hne⟩ := hS.occupied hpS
        rw [hp, Option.some.injEq] at hcolor
        exact hskip.resolve_left (hcolor ▸ hne)
      obtain ⟨cs, hcs, hall⟩ := ih (h.skip hold) hnext
      have hnone := h.not_isFirst hold fun q hq => hvisited q hq p List.mem_cons_self
      exact ⟨cs, hcs.skip hnone, hall⟩
    · rw [if_neg hskip]
      rw [not_or, Bool.not_eq_true] at hskip
      obtain ⟨hne, hnew⟩ := hskip
      obtain ⟨cs, hcs, hall⟩ := ih (h.find hp hne hnew) hnext
      have hfirst := h.isFirst hp hne hnew hcells hlater
      exact ⟨_, hcs.cons (.of_cell hp hne) hfirst hlater, .cons (h.depicts hp hne hnew) hall⟩

end Sweeping

/-- The objects of a grid depict its components, one by one. -/
theorem exists_components (g : Grid) (bg : Color) :
    ∃ cs, g.Components bg cs ∧ List.Forall₂ g.Depicts cs (g.objects bg) := by
  obtain ⟨cs, hcs, hall⟩ := (Sweeping.start g bg).exists_componentsFrom (List.nil_append _)
  exact ⟨cs, hcs.components, hall⟩

/-! ## The largest object -/

/-- The largest object is the first one of its size: those before it are smaller, and those after
it are not larger. -/
theorem exists_split_of_largest? (h : largest? os = some o) :
    ∃ front back, os = front ++ o :: back ∧ (∀ x ∈ front, x.size < o.size) ∧
      ∀ x ∈ back, x.size ≤ o.size := by
  cases os with
  | nil => cases h
  | cons first rest =>
    obtain rfl := Option.some.inj h
    clear h
    -- the objects compared so far, from the first one on
    induction rest using List.reverseRecOn with
    | nil => exact ⟨[], [], rfl, nofun, nofun⟩
    | append_singleton rest x ih =>
      obtain ⟨front, back, hsplit, hfront, hback⟩ := ih
      rw [List.foldl_append, List.foldl_cons, List.foldl_nil, ← List.cons_append, hsplit]
      split
      · next hlarger =>
        refine ⟨_, [], rfl, fun y hy => ?_, nofun⟩
        rcases List.mem_append.1 hy with hy | hy
        · exact (hfront y hy).trans hlarger
        · rcases List.mem_cons.1 hy with rfl | hy
          · exact hlarger
          · exact (hback y hy).trans_lt hlarger
      · next hnot =>
        refine ⟨front, back ++ [x], ?_, hfront, fun y hy => ?_⟩
        · rw [List.append_assoc, List.cons_append]
        · rcases List.mem_append.1 hy with hy | hy
          · exact hback y hy
          · rw [List.mem_singleton.1 hy]
            exact Nat.le_of_not_lt hnot

/-- The largest object is one of the objects. -/
theorem mem_of_largest? (h : largest? os = some o) : o ∈ os := by
  obtain ⟨front, back, rfl, -, -⟩ := exists_split_of_largest? h
  exact List.mem_append_right front List.mem_cons_self

/-- **The objects of a grid are its components.**  They depict the components one by one, in the
order of the first cells of these, so their sizes add up to the number of cells that are not
background.  The grid is cut down to the first object of the largest size, or to one background cell
when there is none. -/
theorem objects_depict_components (g : Grid) (bg : Color) :
    (∃ cs, g.Components bg cs ∧ List.Forall₂ g.Depicts cs (g.objects bg)) ∧
    ((g.objects bg).map Object.size).sum = (g.content bg).length ∧
    (g.objects bg = [] → g.cropLargestObject bg = dot bg) ∧
    (g.objects bg ≠ [] → ∃ front o back, g.objects bg = front ++ o :: back ∧
      (∀ x ∈ front, x.size < o.size) ∧ (∀ x ∈ back, x.size ≤ o.size) ∧
      g.window? o.box = some (g.cropLargestObject bg)) := by
  obtain ⟨cs, hcs, hall⟩ := exists_components g bg
  refine ⟨⟨cs, hcs, hall⟩, ?_, ?_, ?_⟩
  · rw [map_size_eq hall, hcs.sum_card]
  · intro hnil
    unfold cropLargestObject windowOr
    rw [hnil]
    rfl
  · intro hsome
    obtain ⟨o, ho⟩ : ∃ o, largest? (g.objects bg) = some o := by
      cases hos : g.objects bg with
      | nil => exact absurd hos hsome
      | cons first rest => exact ⟨_, rfl⟩
    obtain ⟨front, back, hsplit, hfront, hback⟩ := exists_split_of_largest? ho
    refine ⟨front, o, back, hsplit, hfront, hback, ?_⟩
    obtain ⟨S, hS⟩ := exists_depicts hall (mem_of_largest? ho)
    unfold cropLargestObject windowOr
    rw [ho, Option.map_some, Option.bind_some, window?, dif_pos hS.fits, Option.getD_some]

/-- Three components, of which the last two have three cells each. -/
def tied : Grid := ⟨3, 4, #[2, 2, 0, 1, 0, 0, 1, 1, 3, 3, 3, 0], rfl⟩

/-- The components are listed from the top, with eight cells in all.  The first of the two large ones
is cut out, with the background cell in the corner of its box; a grid of background is cut down to
one cell. -/
theorem objects_depict_components_tied :
    (∃ cs, tied.Components 0 cs ∧ List.Forall₂ tied.Depicts cs
      [⟨2, ⟨0, 0, 1, 2⟩, 2⟩, ⟨1, ⟨0, 2, 2, 2⟩, 3⟩, ⟨3, ⟨2, 0, 1, 3⟩, 3⟩]) ∧
    2 + (3 + (3 + 0)) = (tied.content 0).length ∧
    (∃ front o back, tied.objects 0 = front ++ o :: back ∧ (∀ x ∈ front, x.size < o.size) ∧
      (∀ x ∈ back, x.size ≤ o.size) ∧ tied.window? o.box = some (tied.cropLargestObject 0)) ∧
    (tied.cropLargestObject 0).cells = #[0, 1, 1, 1] ∧
    (full 2 3 7).cropLargestObject 7 = dot 7 := by
  have hobjects : tied.objects 0 =
      [⟨2, ⟨0, 0, 1, 2⟩, 2⟩, ⟨1, ⟨0, 2, 2, 2⟩, 3⟩, ⟨3, ⟨2, 0, 1, 3⟩, 3⟩] := by decide +kernel
  obtain ⟨hcomponents, hsum, -, hlargest⟩ := objects_depict_components tied 0
  rw [hobjects] at hcomponents hsum
  refine ⟨hcomponents, hsum, hlargest ?_, by decide +kernel, ?_⟩
  · rw [hobjects]
    exact nofun
  · exact (objects_depict_components (full 2 3 7) 7).2.2.1 (by decide +kernel)

end Grid

end GridRepair
