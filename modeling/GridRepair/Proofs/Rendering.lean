/-
# Grids and their texts

The text of a grid is its rows, one digit a cell, with a line break between two rows.  A text is read
as rows by cutting it at the line breaks and taking every character for a digit (`Grid.rowsOfText`).

Colors have one digit each and no digit is a line break, so the rows of a valid grid are read back from
its text (`Grid.rowsOfText_render`), and they make the grid again.  Thus the text determines the
shape as well as the cells: two valid grids with one text are the same grid
(`Grid.render_eq_render_iff`).
-/
import GridRepair.Proofs.Encoding

namespace GridRepair

namespace Grid

variable {g g' : Grid} {row : List Color} {c : Color}

/-- The rows of a text: its lines, with every character read as a digit. -/
def rowsOfText (text : String) : List (List Color) :=
  (text.toList.splitOn '\n').map fun line => line.map fun c => c.toNat - '0'.toNat

/-! ## Lines -/

/-- Colors are numbers of one digit. -/
theorem lt_ten_of_le_maxColor (h : c ≤ maxColor) : c < 10 := Nat.lt_succ_of_le h

/-- A color is written as one digit. -/
theorem toList_toString_color (h : c ≤ maxColor) : (toString c).toList = [Nat.digitChar c] := by
  rw [Nat.toString_eq_repr, Nat.toList_repr, Nat.toDigits_of_lt_base (lt_ten_of_le_maxColor h)]

/-- A color is read back from its digit. -/
theorem toNat_digitChar_color (h : c ≤ maxColor) : (Nat.digitChar c).toNat - '0'.toNat = c := by
  rw [Nat.toNat_digitChar_of_lt_ten (lt_ten_of_le_maxColor h)]
  exact Nat.add_sub_cancel_left 48 c

/-- The digit of a color is no line break. -/
theorem digitChar_color_ne (h : c ≤ maxColor) : Nat.digitChar c ≠ '\n' := by
  intro heq
  have hcode := Nat.toNat_digitChar_of_lt_ten (lt_ten_of_le_maxColor h)
  rw [heq] at hcode
  have hbreak : '\n'.toNat = 10 := rfl
  omega

/-- The text of a row has one digit a cell. -/
theorem toList_join_row (h : ∀ c ∈ row, c ≤ maxColor) :
    (String.join (row.map toString)).toList = row.map Nat.digitChar := by
  rw [String.toList_join, List.flatMap_map, List.map_eq_flatMap]
  exact List.flatMap_congr fun c hc => toList_toString_color (h c hc)

/-- A row is read back from its digits. -/
theorem map_toNat_digits (h : ∀ c ∈ row, c ≤ maxColor) :
    ((row.map Nat.digitChar).map fun c => c.toNat - '0'.toNat) = row := by
  rw [List.map_map]
  exact (List.map_congr_left fun c hc => toNat_digitChar_color (h c hc)).trans row.map_id

/-! ## Whole texts -/

/-- The rows of a valid grid hold colors. -/
theorem le_maxColor_of_mem_rows (h : g.Valid) (hrow : row ∈ g.rows) : ∀ c ∈ row, c ≤ maxColor :=
  fun c hc => h.2.2 c (mem_cells_of_mem_rows hrow hc)

/-- A valid grid has a row. -/
theorem rows_ne_nil (h : g.Valid) : g.rows ≠ [] := by
  refine List.ne_nil_of_length_pos ?_
  rw [rows, List.length_ofFn]
  exact h.1

/-- The lines of the text of a valid grid are its rows in digits. -/
theorem splitOn_render (h : g.Valid) :
    g.render.toList.splitOn '\n' = g.rows.map fun row => row.map Nat.digitChar := by
  have hlines : (g.rows.map fun row => String.join (row.map toString)).map String.toList =
      g.rows.map fun row => row.map Nat.digitChar := by
    rw [List.map_map]
    exact List.map_congr_left fun row hrow => toList_join_row (le_maxColor_of_mem_rows h hrow)
  have hbreak : "\n".toList = ['\n'] := rfl
  rw [render, String.toList_intercalate, hlines, hbreak]
  refine List.splitOn_intercalate '\n' ?_ (mt List.map_eq_nil_iff.1 (rows_ne_nil h))
  intro line hline hmem
  obtain ⟨row, hrow, rfl⟩ := List.mem_map.1 hline
  obtain ⟨c, hc, hdigit⟩ := List.mem_map.1 hmem
  exact digitChar_color_ne (le_maxColor_of_mem_rows h hrow c hc) hdigit

/-- The rows of a valid grid are read back from its text. -/
theorem rowsOfText_render (h : g.Valid) : rowsOfText g.render = g.rows := by
  rw [rowsOfText, splitOn_render h, List.map_map]
  exact (List.map_congr_left fun row hrow =>
    map_toNat_digits (le_maxColor_of_mem_rows h hrow)).trans g.rows.map_id

/-- **The text of a grid determines the grid.**  Valid grids of any two shapes have the same text
exactly when they are the same grid. -/
theorem render_eq_render_iff (hg : g.Valid) (hg' : g'.Valid) : g.render = g'.render ↔ g = g' := by
  refine ⟨fun htext => ?_, fun h => congrArg render h⟩
  have hrows : g.rows = g'.rows := by
    rw [← rowsOfText_render hg, htext, rowsOfText_render hg']
  have hmade : (.ok g : Except Fault Grid) = .ok g' := by
    rw [← ofRows_rows hg, hrows, ofRows_rows hg']
  exact Except.ok.inj hmade

/-- Four cells in a row and the same cells in a square have different texts. -/
theorem render_row_ne_render_square :
    let line : Grid := ⟨1, 4, #[1, 2, 3, 4], rfl⟩
    let square : Grid := ⟨2, 2, #[1, 2, 3, 4], rfl⟩
    line.Valid ∧ square.Valid ∧ line.cells = square.cells ∧ line.render ≠ square.render := by
  intro line square
  have hline : line.Valid := by decide
  have hsquare : square.Valid := by decide
  exact ⟨hline, hsquare, rfl, fun h =>
    absurd ((render_eq_render_iff hline hsquare).1 h) (by decide)⟩

-- beyond the colors, two grids can share a text
example :
    (⟨1, 2, #[1, 11], rfl⟩ : Grid).render = (⟨1, 2, #[11, 1], rfl⟩ : Grid).render := by
  decide +kernel

end Grid

end GridRepair
