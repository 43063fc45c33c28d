/-
# Crops of grids

A crop shows the part of a grid under a box.  Boxes come from two places: `Box.ofSides` refuses a box
without cells (`Box.ofSides_eq_ok_iff`), while reading a written box takes any four counts
(`Box.lossless`), so a box that was read may have a side of length zero.

`Guarded.crop` crops with the guarded access of `Guarded`: the far lines of the box are added up in the
range of counts, every cell is read by its row and column, and the result is made of the colors read.
It agrees with `Grid.crop` (`Guarded.crop_eq`).  A box with a cell gives a valid grid if it lies inside
the grid, and is refused otherwise; a box without cells that lies inside is not refused and has no
result either (`Grid.crop_within_grids`).
-/
import GridRepair.Proofs.Encoding
import GridRepair.Proofs.Searches

namespace GridRepair

/-! ## Boxes -/

namespace Box

variable {b : Box} {s : Shape}

/-- The numbers of the box are counts. -/
def InRange (b : Box) : Prop :=
  b.row ≤ maxCount ∧ b.col ≤ maxCount ∧ b.height ≤ maxCount ∧ b.width ≤ maxCount

/-- The lines behind the last row and the last column of the box are counts. -/
def LinesInRange (b : Box) : Prop :=
  b.row + b.height ≤ maxCount ∧ b.col + b.width ≤ maxCount

/-- The box covers a cell. -/
def HasCell (b : Box) : Prop := 0 < b.height ∧ 0 < b.width

instance (b : Box) : Decidable b.LinesInRange := inferInstanceAs (Decidable (_ ∧ _))

instance (b : Box) : Decidable b.HasCell := inferInstanceAs (Decidable (_ ∧ _))

/-- A box whose far lines are counts consists of counts. -/
theorem LinesInRange.inRange (h : b.LinesInRange) : b.InRange := by
  obtain ⟨hrow, hcol⟩ := h
  refine ⟨?_, ?_, ?_, ?_⟩ <;> omega

/-- Boxes of counts are read back, whatever their sides, and only such boxes are read. -/
theorem lossless : Lossless InRange toJson ofJson? where
  plain b := ⟨Json.lossless_count.plain b.row, Json.lossless_count.plain b.col,
    Json.lossless_count.plain b.height, Json.lossless_count.plain b.width, trivial⟩
  decode_encode b h := by
    obtain ⟨hrow, hcol, hheight, hwidth⟩ := h
    show (Json.nat? (.nat b.row)).bind (fun row => (Json.nat? (.nat b.col)).bind fun col =>
      (Json.nat? (.nat b.height)).bind fun height => (Json.nat? (.nat b.width)).bind fun width =>
      some (Box.mk row col height width)) = _
    rw [Json.lossless_count.decode_encode b.row hrow, Option.bind_some,
      Json.lossless_count.decode_encode b.col hcol, Option.bind_some,
      Json.lossless_count.decode_encode b.height hheight, Option.bind_some,
      Json.lossless_count.decode_encode b.width hwidth, Option.bind_some]
  sound j b h := by
    obtain ⟨r, -, h⟩ := Option.bind_eq_some_iff.1 h
    obtain ⟨row, hrow, h⟩ := Option.bind_eq_some_iff.1 h
    obtain ⟨col, hcol, h⟩ := Option.bind_eq_some_iff.1 h
    obtain ⟨height, hheight, h⟩ := Option.bind_eq_some_iff.1 h
    obtain ⟨width, hwidth, h⟩ := Option.bind_eq_some_iff.1 h
    cases h
    exact ⟨Json.lossless_count.sound_required hrow, Json.lossless_count.sound_required hcol,
      Json.lossless_count.sound_required hheight, Json.lossless_count.sound_required hwidth⟩

/-- A box that is made from its sides has a cell. -/
theorem ofSides_eq_ok_iff {row col height width : Nat} :
    ofSides row col height width = .ok b ↔ b = ⟨row, col, height, width⟩ ∧ b.HasCell := by
  rw [ofSides, bind_eq_ok]
  constructor
  · rintro ⟨u, hsides, h⟩
    cases h
    exact ⟨rfl, Grid.checkSides_eq_ok_iff.1 hsides⟩
  · rintro ⟨rfl, hcell⟩
    exact ⟨(), Grid.checkSides_eq_ok_iff.2 hcell, rfl⟩

/-- A box that lies inside a shape and has a cell is within the shape. -/
theorem HasCell.within (h : b.HasCell) (hfits : b.fits s = true) : b.Within s := ⟨hfits, h.1, h.2⟩

end Box

/-! ## Crops with guarded access -/

namespace Guarded

variable {g : Grid} {b : Box} {s : Shape}

/-- The line that lies a number of cells behind another one; a line that is no count is a breach. -/
def farLine (start length : Nat) : Except Fault Nat :=
  if start + length ≤ maxCount then .ok (start + length) else .error (.breach .grid)

/-- The box lies inside the shape.  The columns are not asked for when the rows leave it. -/
def fits (b : Box) (s : Shape) : Except Fault Bool := do
  let bottom ← farLine b.row b.height
  if bottom ≤ s.height then do
    let right ← farLine b.col b.width
    pure (decide (right ≤ s.width))
  else pure false

/-- The part of the grid under a box, if the box lies inside the grid. -/
def crop (g : Grid) (b : Box) : Except Fault Grid := do
  let inside ← fits b g.shape
  if inside then window g b else .error (.invalidArgument "crop" (.boxOutside b g.shape))

/-- The far lines of a box are compared as they are while they are counts. -/
theorem fits_eq (h : b.LinesInRange) : fits b s = .ok (b.fits s) := by
  rw [fits, farLine, if_pos h.1, ok_bind, farLine, if_pos h.2, ok_bind, Box.fits]
  by_cases hbottom : b.row + b.height ≤ s.height
  · rw [if_pos hbottom, decide_eq_true hbottom, Bool.true_and]
    rfl
  · rw [if_neg hbottom, decide_eq_false hbottom, Bool.false_and]
    rfl

/-- No grid can be built with a side of length zero. -/
theorem build_eq_breach {height width : Nat} (f : Nat → Nat → Except Fault Color)
    (h : ¬ (0 < height ∧ 0 < width)) : build height width f = .error (.breach .grid) := by
  have harea : height * width = 0 := by
    rcases Nat.eq_zero_or_pos height with rfl | hheight
    · exact Nat.zero_mul width
    · rw [Nat.eq_zero_of_not_pos fun hwidth => h ⟨hheight, hwidth⟩, Nat.mul_zero]
  have hcells : Shape.cells ⟨height, width⟩ = [] := by
    rw [← List.length_eq_zero_iff, Shape.length_cells, Shape.area, harea]
  have hlength : ([] : List Color).length = height * width := harea.symm
  rw [build, hcells, List.mapM_nil, pure_bind, fromColors, dif_pos hlength, Grid.checked,
    if_neg fun hvalid => h ⟨hvalid.1, hvalid.2.1⟩]

end Guarded

namespace Grid

variable {g : Grid} {b : Box}

/-! ## What a crop shows -/

/-- A valid grid of the shape of a box that shows what another grid shows under the box. -/
structure ShowsUnder (part g : Grid) (b : Box) : Prop where
  valid : part.Valid
  shape_eq : part.shape = b.shape
  get?_eq : ∀ r c, r < b.height → c < b.width → part.get? r c = g.get? (b.row + r) (b.col + c)

/-- A valid grid is sound within its own sides. -/
theorem Valid.sound (h : g.Valid) : g.Sound (max g.height g.width) :=
  ⟨h, Nat.le_max_left _ _, Nat.le_max_right _ _⟩

/-- A box that leaves the grid is refused. -/
theorem crop_of_not_fits (h : ¬ b.fits g.shape = true) :
    g.crop b = .error (.invalidArgument "crop" (.boxOutside b g.shape)) := by
  rw [crop, window?, dif_neg h]

/-- Inside the grid, a crop is a window that is a grid. -/
theorem crop_of_fits (h : b.fits g.shape = true) : g.crop b = (g.window b h).checked := by
  rw [crop, window?, dif_pos h]

/-- A window of a valid grid is valid when its box has a cell. -/
theorem valid_window_iff (hg : g.Valid) (h : b.fits g.shape = true) :
    (g.window b h).Valid ↔ b.HasCell := by
  refine ⟨fun hvalid => ⟨hvalid.1, hvalid.2.1⟩, fun hcell => ?_⟩
  exact ((Guarded.guards_window hg.sound (hcell.within h)).of_ok rfl).valid

/-- The crop under a box that has a cell and lies inside the grid. -/
theorem crop_of_hasCell (hg : g.Valid) (hcell : b.HasCell) (h : b.fits g.shape = true) :
    g.crop b = .ok (g.window b h) := by
  rw [crop_of_fits h, checked, if_pos ((valid_window_iff hg h).2 hcell)]

/-- There is no crop under a box that lies inside the grid and has no cell. -/
theorem crop_of_not_hasCell (hg : g.Valid) (hcell : ¬ b.HasCell) (h : b.fits g.shape = true) :
    g.crop b = .error (.breach .grid) := by
  rw [crop_of_fits h, checked, if_neg (mt (valid_window_iff hg h).1 hcell)]

/-- The window under a box with a cell shows what the grid shows under the box. -/
theorem showsUnder_window (hg : g.Valid) (hcell : b.HasCell) (h : b.fits g.shape = true) :
    (g.window b h).ShowsUnder g b where
  valid := (valid_window_iff hg h).2 hcell
  shape_eq := rfl
  get?_eq _ _ hr hc := get?_window h hr hc

end Grid

/-- With guards, a crop is the same. -/
theorem Guarded.crop_eq {g : Grid} {b : Box} (hg : g.Valid) (hb : b.LinesInRange) :
    crop g b = g.crop b := by
  rw [crop, fits_eq hb, ok_bind]
  by_cases h : b.fits g.shape = true
  · rw [if_pos h]
    by_cases hcell : b.HasCell
    · rw [Grid.crop_of_hasCell hg hcell h]
      exact (guards_window hg.sound (hcell.within h)).eq
    · rw [Grid.crop_of_not_hasCell hg hcell h]
      exact build_eq_breach _ hcell
  · rw [if_neg h, Grid.crop_of_not_fits h]

namespace Grid

variable {g part : Grid} {b : Box}

/-- A crop has a result where the box has a cell and lies inside the grid. -/
theorem crop_eq_ok_iff (hg : g.Valid) :
    g.crop b = .ok part ↔ b.HasCell ∧ ∃ h : b.fits g.shape = true, g.window b h = part := by
  by_cases h : b.fits g.shape = true
  · by_cases hcell : b.HasCell
    · rw [crop_of_hasCell hg hcell h, Except.ok.injEq]
      exact ⟨fun heq => ⟨hcell, h, heq⟩, fun ⟨_, _, heq⟩ => heq⟩
    · rw [crop_of_not_hasCell hg hcell h]
      exact iff_of_false nofun fun hpart => hcell hpart.1
  · rw [crop_of_not_fits h]
    exact iff_of_false nofun fun ⟨_, hfits, _⟩ => h hfits

/-- A crop ends in a breach where the box lies inside the grid and has no cell. -/
theorem crop_eq_breach_iff (hg : g.Valid) :
    g.crop b = .error (.breach .grid) ↔ b.fits g.shape = true ∧ ¬ b.HasCell := by
  by_cases h : b.fits g.shape = true
  · by_cases hcell : b.HasCell
    · rw [crop_of_hasCell hg hcell h]
      exact iff_of_false nofun fun hempty => hempty.2 hcell
    · exact iff_of_true (crop_of_not_hasCell hg hcell h) ⟨h, hcell⟩
  · rw [crop_of_not_fits h]
    exact iff_of_false nofun fun hfits => h hfits.1

/-- **Crops stay within the valid grids where the box has a cell.**  Every box whose far lines are
counts can be read, and can be made from its sides if it has a cell.  With guards, the crop is the
same.  It has a result exactly when the box has a cell and lies inside the grid; the result is a valid
grid of the shape of the box that shows the cells under it.  A box that leaves the grid is refused, and
one without cells that lies inside ends in a breach. -/
theorem crop_within_grids (hg : g.Valid) (hb : b.LinesInRange) :
    (Box.ofJson? b.toJson = some b ∧
      (Box.ofSides b.row b.col b.height b.width = .ok b ↔ b.HasCell)) ∧
    Guarded.crop g b = g.crop b ∧
    ((∃ part, g.crop b = .ok part) ↔ b.HasCell ∧ b.fits g.shape = true) ∧
    (∀ part, g.crop b = .ok part → part.ShowsUnder g b) ∧
    (b.fits g.shape = false →
      g.crop b = .error (.invalidArgument "crop" (.boxOutside b g.shape))) ∧
    (g.crop b = .error (.breach .grid) ↔ b.fits g.shape = true ∧ ¬ b.HasCell) := by
  refine ⟨⟨Box.lossless.decode_encode b hb.inRange, ?_⟩, Guarded.crop_eq hg hb, ?_, ?_, ?_,
    crop_eq_breach_iff hg⟩
  · rw [Box.ofSides_eq_ok_iff]
    exact and_iff_right rfl
  · constructor
    · rintro ⟨part, hpart⟩
      obtain ⟨hcell, hfits, -⟩ := (crop_eq_ok_iff hg).1 hpart
      exact ⟨hcell, hfits⟩
    · rintro ⟨hcell, hfits⟩
      exact ⟨g.window b hfits, crop_of_hasCell hg hcell hfits⟩
  · intro part hpart
    obtain ⟨hcell, hfits, rfl⟩ := (crop_eq_ok_iff hg).1 hpart
    exact showsUnder_window hg hcell hfits
  · intro houtside
    exact crop_of_not_fits (Bool.eq_false_iff.1 houtside)

/-- Two rows of three cells. -/
def oblong : Grid := ⟨2, 3, #[1, 2, 3, 4, 5, 6], rfl⟩

/-- Two columns of them make a grid, a box that goes on below is refused, and for a box without rows,
which can be read but not made from its sides, there is no answer. -/
theorem crop_within_grids_oblong :
    oblong.Valid ∧
    (∃ part, oblong.crop ⟨0, 1, 2, 2⟩ = .ok part ∧ part.ShowsUnder oblong ⟨0, 1, 2, 2⟩) ∧
    oblong.crop ⟨1, 1, 2, 1⟩ =
      .error (.invalidArgument "crop" (.boxOutside ⟨1, 1, 2, 1⟩ oblong.shape)) ∧
    Box.ofJson? (Box.toJson ⟨1, 1, 0, 2⟩) = some ⟨1, 1, 0, 2⟩ ∧
    Box.ofSides 1 1 0 2 ≠ .ok ⟨1, 1, 0, 2⟩ ∧
    oblong.crop ⟨1, 1, 0, 2⟩ = .error (.breach .grid) := by
  have hg : oblong.Valid := by decide
  obtain ⟨-, -, hresult, hshows, -, -⟩ := crop_within_grids (b := ⟨0, 1, 2, 2⟩) hg (by decide)
  obtain ⟨-, -, -, -, hrefused, -⟩ := crop_within_grids (b := ⟨1, 1, 2, 1⟩) hg (by decide)
  obtain ⟨⟨hread, hmade⟩, -, -, -, -, hbreach⟩ :=
    crop_within_grids (b := ⟨1, 1, 0, 2⟩) hg (by decide)
  obtain ⟨part, hpart⟩ := hresult.2 (by decide)
  exact ⟨hg, ⟨part, hpart, hshows part hpart⟩, hrefused (by decide), hread,
    fun h => absurd (hmade.1 h) (by decide), hbreach.2 (by decide)⟩

/-- Not every crop under a box that can be read is a grid or refused. -/
theorem not_crop_of_emptyBox : ¬ ∀ (g : Grid) (j : Json) (b : Box), g.Valid →
    Box.ofJson? j = some b → b.LinesInRange →
      (∃ part, g.crop b = .ok part ∧ part.ShowsUnder g b) ∨
      ∃ fault, g.crop b = .error fault ∧ ∀ cause, fault ≠ .breach cause := by
  intro h
  have hbreach : oblong.crop ⟨0, 0, 1, 0⟩ = .error (.breach .grid) := rfl
  have hread : Box.ofJson? (Box.toJson ⟨0, 0, 1, 0⟩) = some ⟨0, 0, 1, 0⟩ := rfl
  rcases h oblong _ _ (by decide) hread (by decide) with
    ⟨part, hpart, -⟩ | ⟨fault, hfault, hother⟩
  · rw [hbreach] at hpart
    cases hpart
  · rw [hbreach, Except.error.injEq] at hfault
    exact hother .grid hfault.symm

end Grid

end GridRepair
