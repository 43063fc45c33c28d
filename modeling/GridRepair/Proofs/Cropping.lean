/-
# Cropping to the content

The content box of a grid is the tight box around the cells of other colors than the background
(`Grid.contentBox?_eq_some_iff`).  As there is one tight box only, what a crop of a changed grid
gives is found by saying where the box goes.

Under the transpose and under the left-right reflection it goes with the cells, so a crop commutes
with both; all turns and reflections are composed of these two.  A cropped grid is its own content
box, so a second crop changes nothing (`Grid.cropToContent_tightest`).
-/
import GridRepair.Crop
import GridRepair.Proofs.Boxes
import GridRepair.Proofs.Turns

namespace GridRepair

/-! ## Boxes that move with the cells -/

namespace Box

variable {b : Box} {P Q : Cell → Prop}

/-- The box with rows and columns exchanged. -/
def transpose (b : Box) : Box := ⟨b.col, b.row, b.width, b.height⟩

/-- The box with left and right exchanged, in a grid of the given width. -/
def mirror (b : Box) (width : Nat) : Box :=
  ⟨b.row, width - (b.col + b.width), b.height, b.width⟩

/-- The transposed box is tight around the transposed cells. -/
theorem Tight.transpose (h : b.Tight P) (hPQ : ∀ p : Cell, Q p ↔ P ⟨p.col, p.row⟩) :
    b.transpose.Tight Q := by
  have hmem : ∀ p, P p → Q ⟨p.col, p.row⟩ := fun p hp => (hPQ _).2 hp
  constructor
  case covers =>
    intro p hp
    have hin := contains_iff.1 (h.covers _ ((hPQ p).1 hp))
    exact contains_iff.2 ⟨hin.2, hin.1⟩
  case top =>
    obtain ⟨p, hp, hcol⟩ := h.left
    exact ⟨_, hmem p hp, hcol⟩
  case bottom =>
    obtain ⟨p, hp, hcol⟩ := h.right
    exact ⟨_, hmem p hp, hcol⟩
  case left =>
    obtain ⟨p, hp, hrow⟩ := h.top
    exact ⟨_, hmem p hp, hrow⟩
  case right =>
    obtain ⟨p, hp, hrow⟩ := h.bottom
    exact ⟨_, hmem p hp, hrow⟩

/-- The mirrored box is tight around the mirrored cells. -/
theorem Tight.mirror {width : Nat} (h : b.Tight P) (hP : ∀ p, P p → p.col < width)
    (hQ : ∀ p, Q p → p.col < width)
    (hPQ : ∀ p : Cell, p.col < width → (Q p ↔ P ⟨p.row, width - 1 - p.col⟩)) :
    (b.mirror width).Tight Q := by
  have hmem : ∀ p, P p → Q ⟨p.row, width - 1 - p.col⟩ := by
    intro p hp
    rw [hPQ _ (Grid.flip_lt (hP p hp))]
    show P ⟨p.row, width - 1 - (width - 1 - p.col)⟩
    rw [Grid.flip_flip (hP p hp)]
    exact hp
  obtain ⟨last, hlast, hcol⟩ := h.right
  have hlast_lt := hP last hlast
  constructor
  case covers =>
    intro p hp
    have hin := contains_iff.1 (h.covers _ ((hPQ p (hQ p hp)).1 hp))
    have hp_lt := hQ p hp
    rw [contains_iff]
    unfold Box.mirror
    dsimp only at hin ⊢
    omega
  case top =>
    obtain ⟨p, hp, hrow⟩ := h.top
    exact ⟨_, hmem p hp, hrow⟩
  case bottom =>
    obtain ⟨p, hp, hrow⟩ := h.bottom
    exact ⟨_, hmem p hp, hrow⟩
  case left =>
    refine ⟨_, hmem last hlast, ?_⟩
    show width - 1 - last.col = width - (b.col + b.width)
    omega
  case right =>
    obtain ⟨p, hp, hfirst⟩ := h.left
    have hp_lt := hP p hp
    have hin := contains_iff.1 (h.covers last hlast)
    refine ⟨_, hmem p hp, ?_⟩
    show width - 1 - p.col + 1 = width - (b.col + b.width) + b.width
    omega

/-- The box of the same shape in the upper left corner. -/
def atCorner (b : Box) : Box := ⟨0, 0, b.height, b.width⟩

/-- The box in the corner is tight around the cells counted from the corner of the box. -/
theorem Tight.atCorner (h : b.Tight P) (hPQ : ∀ p : Cell, Q p ↔
    (p.row < b.height ∧ p.col < b.width) ∧ P ⟨b.row + p.row, b.col + p.col⟩) :
    b.atCorner.Tight Q := by
  have hmem : ∀ p, P p → (b.row ≤ p.row ∧ b.col ≤ p.col) ∧ Q ⟨p.row - b.row, p.col - b.col⟩ := by
    intro p hp
    have hin := contains_iff.1 (h.covers p hp)
    refine ⟨⟨hin.1.1, hin.2.1⟩, (hPQ _).2 ⟨by dsimp only; omega, ?_⟩⟩
    show P ⟨b.row + (p.row - b.row), b.col + (p.col - b.col)⟩
    rw [Nat.add_sub_cancel' hin.1.1, Nat.add_sub_cancel' hin.2.1]
    exact hp
  constructor
  case covers =>
    intro p hp
    have hin := ((hPQ p).1 hp).1
    rw [contains_iff]
    unfold Box.atCorner
    dsimp only
    omega
  case top =>
    obtain ⟨p, hp, hrow⟩ := h.top
    exact ⟨_, (hmem p hp).2, by show p.row - b.row = 0; omega⟩
  case bottom =>
    obtain ⟨p, hp, hrow⟩ := h.bottom
    have hle := (hmem p hp).1
    exact ⟨_, (hmem p hp).2, by show p.row - b.row + 1 = 0 + b.height; omega⟩
  case left =>
    obtain ⟨p, hp, hcol⟩ := h.left
    exact ⟨_, (hmem p hp).2, by show p.col - b.col = 0; omega⟩
  case right =>
    obtain ⟨p, hp, hcol⟩ := h.right
    have hle := (hmem p hp).1
    exact ⟨_, (hmem p hp).2, by show p.col - b.col + 1 = 0 + b.width; omega⟩

end Box

namespace Grid

variable {g : Grid} {bg : Color} {b : Box} {p : Cell}

/-! ## The content box -/

/-- The cell is inside the grid and not of the background color. -/
def Occupied (g : Grid) (bg : Color) (p : Cell) : Prop :=
  ∃ color, g.get? p.row p.col = some color ∧ color ≠ bg

/-- An occupied cell is inside the grid. -/
theorem Occupied.contains (h : g.Occupied bg p) : g.shape.Contains p := by
  obtain ⟨color, hcolor, -⟩ := h
  exact contains_of_get? hcolor

/-- The content is the occupied cells. -/
theorem mem_content_iff_occupied : p ∈ g.content bg ↔ g.Occupied bg p := by
  rw [mem_content]
  constructor
  · intro h
    have hcolor := get?_eq_some h.1.1 h.1.2
    exact ⟨_, hcolor, fun e => h.2 (e ▸ hcolor)⟩
  · intro h
    refine ⟨h.contains, ?_⟩
    obtain ⟨color, hcolor, hne⟩ := h
    rw [hcolor]
    exact fun e => hne (Option.some.inj e)

/-- The content box is the tight box around the occupied cells. -/
theorem contentBox?_eq_some_iff : g.contentBox? bg = some b ↔ b.Tight (g.Occupied bg) := by
  unfold contentBox?
  rw [Box.hull_eq_some_iff]
  constructor
  · intro h
    exact h.congr fun p => mem_content_iff_occupied
  · intro h
    exact h.congr fun p => mem_content_iff_occupied.symm

/-- There is no content box when no cell is occupied. -/
theorem contentBox?_eq_none_iff : g.contentBox? bg = none ↔ ∀ p, ¬ g.Occupied bg p := by
  unfold contentBox?
  rw [Box.hull_eq_none_iff, List.eq_nil_iff_forall_not_mem]
  simp only [mem_content_iff_occupied]

/-- No cell is occupied when all have the background color. -/
theorem not_occupied_iff : (∀ p, ¬ g.Occupied bg p) ↔
    ∀ p, g.shape.Contains p → g.get? p.row p.col = some bg := by
  constructor
  · intro h p hp
    by_contra hne
    have hcolor := get?_eq_some hp.1 hp.2
    exact h p ⟨_, hcolor, fun e => hne (e ▸ hcolor)⟩
  · intro h p hp
    have hbg := h p hp.contains
    obtain ⟨color, hcolor, hne⟩ := hp
    exact hne (Option.some.inj (hcolor.symm.trans hbg))

/-- The content box lies inside the grid. -/
theorem fits_of_tight (h : b.Tight (g.Occupied bg)) : b.fits g.shape = true :=
  h.fits fun _ hp => hp.contains

/-- A grid with a content box is cut down to it. -/
theorem cropToContent_of_tight (h : b.Tight (g.Occupied bg)) :
    g.cropToContent bg = g.window b (fits_of_tight h) := by
  unfold cropToContent windowOr
  rw [contentBox?_eq_some_iff.2 h, Option.bind_some, window?, dif_pos (fits_of_tight h),
    Option.getD_some]

/-- A grid without content is cut down to one background cell. -/
theorem cropToContent_of_empty (h : ∀ p, ¬ g.Occupied bg p) : g.cropToContent bg = dot bg := by
  unfold cropToContent windowOr
  rw [contentBox?_eq_none_iff.2 h, Option.bind_none, Option.getD_none]

/-- A grid has a content box, or no cell of it is occupied. -/
theorem exists_tight_or_empty (g : Grid) (bg : Color) :
    (∃ b : Box, b.Tight (g.Occupied bg)) ∨ ∀ p, ¬ g.Occupied bg p := by
  cases h : g.contentBox? bg with
  | some b => exact .inl ⟨b, contentBox?_eq_some_iff.1 h⟩
  | none => exact .inr (contentBox?_eq_none_iff.1 h)

/-! ## A second crop -/

/-- The cells of a window that are occupied are occupied in the grid. -/
theorem occupied_window (h : b.fits g.shape = true) : (g.window b h).Occupied bg p ↔
    (p.row < b.height ∧ p.col < b.width) ∧ g.Occupied bg ⟨b.row + p.row, b.col + p.col⟩ := by
  constructor
  · intro hp
    have hin : p.row < b.height ∧ p.col < b.width := hp.contains
    unfold Occupied at hp
    rw [get?_window h hin.1 hin.2] at hp
    exact ⟨hin, hp⟩
  · intro hp
    unfold Occupied
    rw [get?_window h hp.1.1 hp.1.2]
    exact hp.2

/-- The single background cell has no content. -/
theorem not_occupied_dot (bg : Color) (p : Cell) : ¬ (dot bg).Occupied bg p := by
  refine not_occupied_iff.2 (fun q hq => ?_) p
  have hin : q.row < 1 ∧ q.col < 1 := hq
  unfold dot full
  rw [get?_ofFn, dif_pos hin]

/-- A crop changes nothing after a crop. -/
theorem cropToContent_cropToContent (g : Grid) (bg : Color) :
    (g.cropToContent bg).cropToContent bg = g.cropToContent bg := by
  rcases exists_tight_or_empty g bg with ⟨b, hb⟩ | hempty
  · rw [cropToContent_of_tight hb]
    have hcorner : b.atCorner.Tight ((g.window b (fits_of_tight hb)).Occupied bg) :=
      hb.atCorner fun p => occupied_window _
    rw [cropToContent_of_tight hcorner]
    -- the content box of the window is the whole window
    refine ext_inside rfl fun r c hr hc => ?_
    rw [get?_window _ hr hc]
    show (g.window b _).get? (0 + r) (0 + c) = _
    rw [Nat.zero_add, Nat.zero_add]
  · rw [cropToContent_of_empty hempty, cropToContent_of_empty (not_occupied_dot bg)]

/-! ## Crops under turns and reflections -/

/-- The occupied cells of the transpose. -/
theorem occupied_transpose : g.transpose.Occupied bg p ↔ g.Occupied bg ⟨p.col, p.row⟩ := by
  unfold Occupied
  rw [get?_transpose]

/-- The occupied cells of a left-right reflection. -/
theorem occupied_reflectH (hp : p.col < g.width) :
    g.reflectH.Occupied bg p ↔ g.Occupied bg ⟨p.row, g.width - 1 - p.col⟩ := by
  unfold Occupied
  rw [get?_reflectH g hp]

/-- The single cell is its own transpose. -/
theorem transpose_dot (color : Color) : (dot color).transpose = dot color := by
  refine ext_inside rfl fun r c (hr : r < 1) (hc : c < 1) => ?_
  obtain rfl : r = c := by omega
  rw [get?_transpose]

/-- The single cell is its own reflection. -/
theorem reflectH_dot (color : Color) : (dot color).reflectH = dot color := by
  refine ext_inside rfl fun r c _ (hc : c < 1) => ?_
  obtain rfl : c = 0 := by omega
  rw [get?_reflectH (dot color) hc]
  rfl

/-- A crop commutes with the transpose. -/
theorem cropToContent_transpose (g : Grid) (bg : Color) :
    g.transpose.cropToContent bg = (g.cropToContent bg).transpose := by
  rcases exists_tight_or_empty g bg with ⟨b, hb⟩ | hempty
  · have htransposed : b.transpose.Tight (g.transpose.Occupied bg) :=
      hb.transpose fun p => occupied_transpose
    rw [cropToContent_of_tight hb, cropToContent_of_tight htransposed]
    refine ext_inside rfl fun r c (hr : r < b.width) (hc : c < b.height) => ?_
    rw [get?_window _ hr hc, get?_transpose, get?_transpose, get?_window _ hc hr]
    rfl
  · have hempty' : ∀ p, ¬ g.transpose.Occupied bg p := fun p hp =>
      hempty _ (occupied_transpose.1 hp)
    rw [cropToContent_of_empty hempty, cropToContent_of_empty hempty', transpose_dot]

/-- A crop commutes with the left-right reflection. -/
theorem cropToContent_reflectH (g : Grid) (bg : Color) :
    g.reflectH.cropToContent bg = (g.cropToContent bg).reflectH := by
  rcases exists_tight_or_empty g bg with ⟨b, hb⟩ | hempty
  · have hmirrored : (b.mirror g.width).Tight (g.reflectH.Occupied bg) :=
      hb.mirror (fun p hp => hp.contains.2) (fun p hp => hp.contains.2) fun p => occupied_reflectH
    have hfits := Box.fits_iff.1 (fits_of_tight hb)
    have hwidth : b.col + b.width ≤ g.width := hfits.2
    rw [cropToContent_of_tight hb, cropToContent_of_tight hmirrored]
    refine ext_inside rfl fun r c (hr : r < b.height) (hc : c < b.width) => ?_
    rw [get?_window (fits_of_tight hmirrored) hr hc, get?_reflectH (g.window b _) hc]
    show g.reflectH.get? (b.row + r) (g.width - (b.col + b.width) + c) =
      (g.window b _).get? r (b.width - 1 - c)
    rw [get?_window _ hr (flip_lt hc), get?_reflectH g (by omega)]
    have hcol : g.width - 1 - (g.width - (b.col + b.width) + c) = b.col + (b.width - 1 - c) := by
      omega
    rw [hcol]
  · have hempty' : ∀ p, ¬ g.reflectH.Occupied bg p := fun p hp =>
      hempty _ ((occupied_reflectH (g := g) hp.contains.2).1 hp)
    rw [cropToContent_of_empty hempty, cropToContent_of_empty hempty', reflectH_dot]

/-- A crop commutes with the top-bottom reflection. -/
theorem cropToContent_reflectV (g : Grid) (bg : Color) :
    g.reflectV.cropToContent bg = (g.cropToContent bg).reflectV := by
  rw [← transpose_reflectH_transpose, cropToContent_transpose, cropToContent_reflectH,
    cropToContent_transpose, transpose_reflectH_transpose]

/-- A crop commutes with all turns. -/
theorem cropToContent_rotate (g : Grid) (bg : Color) (k : Int) :
    (g.rotate k).cropToContent bg = (g.cropToContent bg).rotate k := by
  have hquarter : Function.Commute (fun x : Grid => x.cropToContent bg) quarterTurn := by
    intro x
    show x.quarterTurn.cropToContent bg = (x.cropToContent bg).quarterTurn
    rw [← reflectH_transpose, cropToContent_reflectH, cropToContent_transpose, reflectH_transpose]
  rw [rotate_eq_iterate, rotate_eq_iterate]
  exact (hquarter.iterate_right _).eq g

/-- **The crop to the content is the tightest one.**  There is no content box exactly when every
cell has the background color, and then one background cell is left.  A content box lies inside the
grid, covers every cell of another color and has one in each of its first and last rows and columns;
and the cells under it are what is left.  A second crop changes nothing, and a crop commutes with
the transpose, the reflections and all turns. -/
theorem cropToContent_tightest (g : Grid) (bg : Color) :
    (g.contentBox? bg = none ↔ ∀ p, g.shape.Contains p → g.get? p.row p.col = some bg) ∧
    (g.contentBox? bg = none → g.cropToContent bg = dot bg) ∧
    (∀ b, g.contentBox? bg = some b →
      b.fits g.shape = true ∧ b.Tight (g.Occupied bg) ∧
        g.window? b = some (g.cropToContent bg)) ∧
    (g.cropToContent bg).cropToContent bg = g.cropToContent bg ∧
    g.transpose.cropToContent bg = (g.cropToContent bg).transpose ∧
    g.reflectH.cropToContent bg = (g.cropToContent bg).reflectH ∧
    g.reflectV.cropToContent bg = (g.cropToContent bg).reflectV ∧
    ∀ k, (g.rotate k).cropToContent bg = (g.cropToContent bg).rotate k := by
  refine ⟨?_, ?_, ?_, cropToContent_cropToContent g bg, cropToContent_transpose g bg,
    cropToContent_reflectH g bg, cropToContent_reflectV g bg, cropToContent_rotate g bg⟩
  · rw [contentBox?_eq_none_iff, not_occupied_iff]
  · intro hnone
    exact cropToContent_of_empty (contentBox?_eq_none_iff.1 hnone)
  · intro b hb
    have htight := contentBox?_eq_some_iff.1 hb
    refine ⟨fits_of_tight htight, htight, ?_⟩
    rw [cropToContent_of_tight htight, window?, dif_pos]

/-- An oblong grid with content off its center. -/
def offCenter : Grid := ⟨3, 4, #[0, 0, 0, 0, 0, 0, 5, 0, 0, 0, 0, 6], rfl⟩

/-- Two cells of the grid, which meet at a corner, are its content: the box around them is cut out,
also after three turns.  A grid of background is cut down to one cell. -/
theorem cropToContent_tightest_offCenter :
    offCenter.contentBox? 0 = some ⟨1, 2, 2, 2⟩ ∧
      (⟨1, 2, 2, 2⟩ : Box).Tight (offCenter.Occupied 0) ∧
      offCenter.window? ⟨1, 2, 2, 2⟩ = some (offCenter.cropToContent 0) ∧
      (offCenter.cropToContent 0).cells = #[5, 0, 0, 6] ∧
      (offCenter.rotate 3).cropToContent 0 = (offCenter.cropToContent 0).rotate 3 ∧
      (full 2 3 7).cropToContent 7 = dot 7 := by
  have hbox : offCenter.contentBox? 0 = some ⟨1, 2, 2, 2⟩ := by decide +kernel
  obtain ⟨-, -, hsome, -, -, -, -, hrotate⟩ := cropToContent_tightest offCenter 0
  obtain ⟨-, htight, hwindow⟩ := hsome _ hbox
  refine ⟨hbox, htight, hwindow, by decide +kernel, hrotate 3, ?_⟩
  exact (cropToContent_tightest (full 2 3 7) 7).2.1 (by decide +kernel)

end Grid

end GridRepair
