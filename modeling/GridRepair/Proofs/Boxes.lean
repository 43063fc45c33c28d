/-
# Tight boxes

A box is tight around cells when it covers them and each of its four outer lines holds one of them.
There is at most one such box (`Box.Tight.unique`), and it lies in every box that covers the cells
(`Box.Tight.least`).  So a box that is tight around some cells is the smallest one around them, and
it is found by showing of any box that it is tight.

The smallest box around a list of cells, computed line by line, is tight (`Box.hull_eq_some_iff`).
-/
import GridRepair.Shape

namespace GridRepair

namespace Box

variable {b c : Box} {P Q : Cell → Prop} {s : Shape} {p : Cell} {ps : List Cell}

/-- The box covers the cells with the property, and its first and last rows and columns hold such a
cell each. -/
structure Tight (b : Box) (P : Cell → Prop) : Prop where
  covers : ∀ p, P p → b.contains p = true
  top : ∃ p, P p ∧ p.row = b.row
  bottom : ∃ p, P p ∧ p.row + 1 = b.row + b.height
  left : ∃ p, P p ∧ p.col = b.col
  right : ∃ p, P p ∧ p.col + 1 = b.col + b.width

namespace Tight

/-- The lines of a tight box lie within those of every box that covers the cells. -/
theorem lines_within (h : b.Tight P) (hc : ∀ p, P p → c.contains p = true) :
    (c.row ≤ b.row ∧ b.row + b.height ≤ c.row + c.height) ∧
      c.col ≤ b.col ∧ b.col + b.width ≤ c.col + c.width := by
  obtain ⟨top, htop, hrow⟩ := h.top
  obtain ⟨bottom, hbottom, hheight⟩ := h.bottom
  obtain ⟨left, hleft, hcol⟩ := h.left
  obtain ⟨right, hright, hwidth⟩ := h.right
  have h₁ := contains_iff.1 (hc top htop)
  have h₂ := contains_iff.1 (hc bottom hbottom)
  have h₃ := contains_iff.1 (hc left hleft)
  have h₄ := contains_iff.1 (hc right hright)
  omega

/-- A tight box lies in every box that covers the cells. -/
theorem least (h : b.Tight P) (hc : ∀ p, P p → c.contains p = true)
    (hp : b.contains p = true) : c.contains p = true := by
  have hlines := h.lines_within hc
  rw [contains_iff] at hp ⊢
  omega

/-- There is one tight box at most. -/
theorem unique (hb : b.Tight P) (hc : c.Tight P) : b = c := by
  have hbc := hb.lines_within hc.covers
  have hcb := hc.lines_within hb.covers
  obtain ⟨row, col, height, width⟩ := b
  obtain ⟨row', col', height', width'⟩ := c
  simp only [Box.mk.injEq]
  simp only at hbc hcb
  omega

/-- A box is tight around the cells, whichever property describes them. -/
theorem congr (h : b.Tight P) (hPQ : ∀ p, P p ↔ Q p) : b.Tight Q := by
  obtain rfl : P = Q := funext fun p => propext (hPQ p)
  exact h

/-- A box that is tight around cells of a shape lies inside the shape. -/
theorem fits (h : b.Tight P) (hP : ∀ p, P p → s.Contains p) : b.fits s = true := by
  obtain ⟨bottom, hbottom, hheight⟩ := h.bottom
  obtain ⟨right, hright, hwidth⟩ := h.right
  have h₁ := (hP bottom hbottom).1
  have h₂ := (hP right hright).2
  rw [fits_iff]
  omega

end Tight

/-! ## The box around a list of cells -/

/-- The least of some numbers is one of them, and none is less. -/
theorem foldl_min_spec {f : Cell → Nat} (p : Cell) (ps : List Cell) :
    (∃ q ∈ p :: ps, f q = (ps.map f).foldl min (f p)) ∧
      ∀ q ∈ p :: ps, (ps.map f).foldl min (f p) ≤ f q := by
  have hmin : ((p :: ps).map f).min? = some ((ps.map f).foldl min (f p)) := List.min?_cons'
  rw [List.min?_eq_some_iff, List.mem_map, List.forall_mem_map] at hmin
  exact hmin

/-- The greatest of some numbers is one of them, and none is greater. -/
theorem foldl_max_spec {f : Cell → Nat} (p : Cell) (ps : List Cell) :
    (∃ q ∈ p :: ps, f q = (ps.map f).foldl max (f p)) ∧
      ∀ q ∈ p :: ps, f q ≤ (ps.map f).foldl max (f p) := by
  have hmax : ((p :: ps).map f).max? = some ((ps.map f).foldl max (f p)) := List.max?_cons'
  rw [List.max?_eq_some_iff, List.mem_map, List.forall_mem_map] at hmax
  exact hmax

/-- The box around listed cells is tight. -/
theorem tight_around (p : Cell) (ps : List Cell) : (around p ps).Tight (· ∈ p :: ps) := by
  obtain ⟨⟨top, htop, hrow⟩, hrow_le⟩ := foldl_min_spec (f := Cell.row) p ps
  obtain ⟨⟨left, hleft, hcol⟩, hcol_le⟩ := foldl_min_spec (f := Cell.col) p ps
  obtain ⟨⟨bottom, hbottom, hlow⟩, hlow_le⟩ := foldl_max_spec (f := Cell.row) p ps
  obtain ⟨⟨right, hright, hfar⟩, hfar_le⟩ := foldl_max_spec (f := Cell.col) p ps
  have hheight := hrow_le bottom hbottom
  have hwidth := hcol_le right hright
  constructor
  case covers =>
    intro q hq
    have h₁ := hrow_le q hq
    have h₂ := hlow_le q hq
    have h₃ := hcol_le q hq
    have h₄ := hfar_le q hq
    rw [contains_iff]
    unfold around spanning
    dsimp only
    omega
  case top => exact ⟨top, htop, hrow⟩
  case left => exact ⟨left, hleft, hcol⟩
  case bottom =>
    refine ⟨bottom, hbottom, ?_⟩
    unfold around spanning
    dsimp only
    omega
  case right =>
    refine ⟨right, hright, ?_⟩
    unfold around spanning
    dsimp only
    omega

/-- The smallest box around a list of cells is the tight one. -/
theorem hull_eq_some_iff : hull ps = some b ↔ b.Tight (· ∈ ps) := by
  constructor
  · intro h
    cases ps with
    | nil => cases h
    | cons p ps =>
      obtain rfl := Option.some.inj h
      exact tight_around p ps
  · intro h
    cases ps with
    | nil =>
      obtain ⟨q, hq, -⟩ := h.top
      cases hq
    | cons p ps => exact congrArg some ((tight_around p ps).unique h)

/-- There is a smallest box unless there is no cell. -/
theorem hull_eq_none_iff : hull ps = none ↔ ps = [] := by
  cases ps with
  | nil => exact iff_of_true rfl rfl
  | cons p ps => exact iff_of_false nofun nofun

end Box

end GridRepair
