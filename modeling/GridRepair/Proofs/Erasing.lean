/-
# Erasing an object

A component is erased when its cells get the background color and all others keep theirs
(`Grid.Erases`).  What is left has the components of before without the erased one
(`Grid.Erases.isComponent_iff`): a connected set of another color than the background is one of
before that does not meet the erased cells, and components that meet are equal.

A fill with the background color erases the component of its seed (`Grid.erases_floodFill`).  As a
grid determines its list of components, and a component the object that depicts it, the objects
after the fill are those of before without one entry (`Grid.objects_floodFill`).  So the search of
the fill and the search for objects find the same regions.
-/
import GridRepair.Proofs.Objects

namespace GridRepair

namespace Grid

variable {g g' : Grid} {bg color : Color} {seed : Cell} {S T : Finset Cell}
  {cs : List (Finset Cell)} {o : Object}

/-! ## Erased cells -/

/-- The second grid is the first one with the cells of a set in the background color. -/
structure Erases (g g' : Grid) (bg : Color) (S : Finset Cell) : Prop where
  inside : ∀ p ∈ S, g'.get? p.row p.col = some bg
  outside : ∀ p, p ∉ S → g'.get? p.row p.col = g.get? p.row p.col

namespace Erases

/-- The connected sets that are left are those which the erased cells do not meet. -/
theorem connected_iff (h : Erases g g' bg S) (hne : color ≠ bg) :
    g'.Connected color T ↔ g.Connected color T ∧ Disjoint T S := by
  constructor
  · intro hT
    have hapart : ∀ p ∈ T, p ∉ S := by
      intro p hp hpS
      have hcolor := hT.get?_eq p hp
      rw [h.inside p hpS, Option.some.injEq] at hcolor
      exact hne hcolor.symm
    refine ⟨⟨hT.nonempty, fun p hp => ?_, hT.path⟩, Finset.disjoint_left.2 fun p => hapart p⟩
    rw [← h.outside p (hapart p hp)]
    exact hT.get?_eq p hp
  · rintro ⟨hT, hdisjoint⟩
    refine ⟨hT.nonempty, fun p hp => ?_, hT.path⟩
    rw [h.outside p (Finset.disjoint_left.1 hdisjoint hp)]
    exact hT.get?_eq p hp

/-- The components that are left are those of before without the erased one. -/
theorem isComponent_iff (h : Erases g g' bg S) (hS : g.IsComponent bg S) :
    g'.IsComponent bg T ↔ g.IsComponent bg T ∧ T ≠ S := by
  constructor
  · rintro ⟨color, hne, hmax⟩
    obtain ⟨hT, hdisjoint⟩ := (h.connected_iff hne).1 hmax.prop
    obtain ⟨p, hp⟩ := hT.nonempty
    have hcolor := hT.get?_eq p hp
    have hcomponent := IsComponent.of_cell hcolor hne
    -- the component of a cell of `T` in the first grid is not the erased one, so it is left too
    have hleft : g'.Connected color (g.component color p) := by
      refine (h.connected_iff hne).2 ⟨connected_component hcolor, Finset.disjoint_left.2 ?_⟩
      intro q hq hqS
      have hsame := hcomponent.eq_of_mem hS hq hqS
      have hpS : p ∈ S := hsame ▸ self_mem_component hcolor
      exact Finset.disjoint_left.1 hdisjoint hp hpS
    have hsame := hmax.eq_of_ge hleft (hT.subset_component hp)
    refine ⟨hsame ▸ hcomponent, ?_⟩
    rintro rfl
    exact Finset.disjoint_left.1 hdisjoint hp hp
  · rintro ⟨hT, hne⟩
    have hdisjoint : Disjoint T S := Finset.disjoint_left.2 fun p hpT hpS =>
      hne (hT.eq_of_mem hS hpT hpS)
    obtain ⟨color, hcolor, hmax⟩ := hT
    refine ⟨color, hcolor, (h.connected_iff hcolor).2 ⟨hmax.prop, hdisjoint⟩, ?_⟩
    intro U hU hle
    exact hmax.2 ((h.connected_iff hcolor).1 hU).1 hle

/-- The list of the components that are left. -/
theorem components (h : Erases g g' bg S) (hS : g.IsComponent bg S) (hcs : g.Components bg cs) :
    g'.Components bg (cs.erase S) where
  mem_iff := by
    intro T
    rw [hcs.nodup.mem_erase_iff, hcs.mem_iff, h.isComponent_iff hS, and_comm]
  sorted := hcs.sorted.sublist List.erase_sublist

/-- The objects of the components that are left say the same as before. -/
theorem depicts (h : Erases g g' bg S) (hS : g.IsComponent bg S) (hT : g'.IsComponent bg T)
    (ho : g.Depicts T o) : g'.Depicts T o where
  get?_eq := by
    intro p hp
    have hleft := (h.isComponent_iff hS).1 hT
    rw [h.outside p fun hpS => hleft.2 (hleft.1.eq_of_mem hS hp hpS)]
    exact ho.get?_eq p hp
  size_eq := ho.size_eq
  tight := ho.tight
  least := ho.least

/-- The objects that are left are those of before without the one of the erased component. -/
theorem objects_eq (h : Erases g g' bg S) (hS : g.IsComponent bg S) (hcs : g.Components bg cs)
    (hall : List.Forall₂ g.Depicts cs (g.objects bg)) :
    g'.objects bg = (g.objects bg).eraseIdx (cs.idxOf S) := by
  obtain ⟨ds, hds, hall'⟩ := exists_components g' bg
  obtain rfl := hds.unique (h.components hS hcs)
  -- both lists of objects depict the components that are left
  have hrest : List.Forall₂ g.Depicts (cs.erase S) ((g.objects bg).eraseIdx (cs.idxOf S)) := by
    rw [← List.eraseIdx_idxOf_eq_erase, List.eraseIdx_eq_take_drop_succ,
      List.eraseIdx_eq_take_drop_succ]
    exact List.rel_append (List.forall₂_take _ hall) (List.forall₂_drop _ hall)
  have hkept : List.Forall₂ g'.Depicts (cs.erase S)
      ((g.objects bg).eraseIdx (cs.idxOf S)) := by
    have hboth := (List.forall₂_and_left _ _).2 ⟨fun T hT => (hds.mem_iff T).1 hT, hrest⟩
    exact hboth.imp fun T o hTo => h.depicts hS hTo.1 hTo.2
  exact List.right_unique_forall₂' (rightUnique_depicts g') hall' hkept

end Erases

/-! ## Filling with the background color -/

/-- A fill with the background color erases the component of its seed. -/
theorem erases_floodFill (hseed : g.get? seed.row seed.col = some color) (hne : color ≠ bg) :
    Erases g (g.floodFill seed.row seed.col bg) bg (g.component color seed) := by
  have hat : seed.IsAt seed.row seed.col := ⟨rfl, rfl⟩
  have hfill := get?_floodFill hat hseed hne
  constructor
  case inside => exact fun p hp => (hfill p).1 ((mem_component hseed).1 hp)
  case outside => exact fun p hp => (hfill p).2 (mt (mem_component hseed).2 hp)

/-- The cells in which two grids differ. -/
def differing (g g' : Grid) : List Cell :=
  g.shape.cells.filter fun p => g.get? p.row p.col != g'.get? p.row p.col

/-- Erased cells of other colors than the background differ, and no others do. -/
theorem Erases.length_differing (h : Erases g g' bg S) (hS : g.IsComponent bg S) :
    (g.differing g').length = S.card := by
  have hset : (g.differing g').toFinset = S := by
    ext p
    unfold differing
    rw [List.mem_toFinset, List.mem_filter, Shape.mem_cells, bne_iff_ne]
    constructor
    · rintro ⟨-, hdiffers⟩
      by_contra hp
      exact hdiffers (h.outside p hp).symm
    · intro hp
      have hoccupied := hS.occupied hp
      refine ⟨hoccupied.contains, ?_⟩
      obtain ⟨color, hcolor, hne⟩ := hoccupied
      rw [hcolor, h.inside p hp]
      exact fun heq => hne (Option.some.inj heq)
  have hnodup : (g.differing g').Nodup := g.shape.nodup_cells.filter _
  rw [← List.toFinset_card_of_nodup hnodup, hset]

/-- **A fill with the background color deletes one object.**  The components of a grid and the
objects that depict them stand in the same order.  When an occupied cell is filled with the
background color, the object of its component is deleted, and the others stay as they are in their
order; the deleted one is as large as the number of cells that changed. -/
theorem objects_floodFill (h : g.Occupied bg seed) :
    ∃ cs i S o, g.Components bg cs ∧ List.Forall₂ g.Depicts cs (g.objects bg) ∧
      cs[i]? = some S ∧ seed ∈ S ∧ (g.objects bg)[i]? = some o ∧
      (g.floodFill seed.row seed.col bg).objects bg = (g.objects bg).eraseIdx i ∧
      o.size = (g.differing (g.floodFill seed.row seed.col bg)).length := by
  obtain ⟨color, hseed, hne⟩ := h
  obtain ⟨cs, hcs, hall⟩ := exists_components g bg
  have herases := erases_floodFill hseed hne
  have hS : g.IsComponent bg (g.component color seed) := .of_cell hseed hne
  have hmem : g.component color seed ∈ cs := (hcs.mem_iff _).2 hS
  have hcs_lt : cs.idxOf (g.component color seed) < cs.length := List.idxOf_lt_length_of_mem hmem
  have hos_lt : cs.idxOf (g.component color seed) < (g.objects bg).length :=
    hall.length_eq ▸ hcs_lt
  have ho : g.Depicts (g.component color seed) ((g.objects bg).get ⟨_, hos_lt⟩) := by
    have hget := hall.get hcs_lt hos_lt
    rwa [List.get_eq_getElem, List.getElem_idxOf] at hget
  refine ⟨cs, _, _, _, hcs, hall, List.getElem?_idxOf hmem, self_mem_component hseed,
    List.getElem?_eq_getElem hos_lt, herases.objects_eq hS hcs hall, ?_⟩
  show ((g.objects bg).get ⟨_, hos_lt⟩).size = _
  rw [ho.size_eq, herases.length_differing hS]

/-- Two objects of different colors side by side. -/
def touching : Grid := ⟨2, 3, #[1, 1, 2, 0, 1, 2], rfl⟩

/-- A fill from the lower cell of the object on the left deletes this object, of three cells, and
not the one beside it. -/
theorem objects_floodFill_touching :
    touching.Occupied 0 ⟨1, 1⟩ ∧
    touching.objects 0 = [⟨1, ⟨0, 0, 2, 2⟩, 3⟩, ⟨2, ⟨0, 2, 2, 1⟩, 2⟩] ∧
    (touching.floodFill 1 1 0).objects 0 = [⟨2, ⟨0, 2, 2, 1⟩, 2⟩] ∧
    ∃ cs i S o, touching.Components 0 cs ∧ List.Forall₂ touching.Depicts cs (touching.objects 0) ∧
      cs[i]? = some S ∧ ⟨1, 1⟩ ∈ S ∧ (touching.objects 0)[i]? = some o ∧
      (touching.floodFill 1 1 0).objects 0 = (touching.objects 0).eraseIdx i ∧
      o.size = (touching.differing (touching.floodFill 1 1 0)).length := by
  have hoccupied : touching.Occupied 0 ⟨1, 1⟩ := ⟨1, by decide, by decide⟩
  exact ⟨hoccupied, by decide +kernel, by decide +kernel, objects_floodFill hoccupied⟩

end Grid

end GridRepair
