/-
# Symmetries of the rectangle

Reflections, the transpose and quarter turns of a grid.  Turns are clockwise and counted
modulo four, so a negative count turns the other way.
-/
import GridRepair.Grid

namespace GridRepair

namespace Grid

/-- A position of `0, …, n - 1` counted from the other end is in the same range. -/
theorem flip_lt {n i : Nat} (h : i < n) : n - 1 - i < n := by omega

/-- Left and right exchanged: every row is reversed. -/
def reflectH (g : Grid) : Grid :=
  ofFn g.height g.width fun r c hr hc => g.colorAt r (g.width - 1 - c) hr (flip_lt hc)

/-- Top and bottom exchanged: the order of the rows is reversed. -/
def reflectV (g : Grid) : Grid :=
  ofFn g.height g.width fun r c hr hc => g.colorAt (g.height - 1 - r) c (flip_lt hr) hc

/-- Rows and columns exchanged. -/
def transpose (g : Grid) : Grid :=
  ofFn g.width g.height fun r c hr hc => g.colorAt c r hc hr

/-- One clockwise quarter turn. -/
def quarterTurn (g : Grid) : Grid :=
  ofFn g.width g.height fun r c hr hc => g.colorAt (g.height - 1 - c) r (flip_lt hc) hr

/-- A half turn. -/
def halfTurn (g : Grid) : Grid :=
  ofFn g.height g.width fun r c hr hc =>
    g.colorAt (g.height - 1 - r) (g.width - 1 - c) (flip_lt hr) (flip_lt hc)

/-- Three clockwise quarter turns. -/
def quarterTurnBack (g : Grid) : Grid :=
  ofFn g.width g.height fun r c hr hc => g.colorAt c (g.width - 1 - r) hc (flip_lt hr)

/-- `k` clockwise quarter turns. -/
def rotate (g : Grid) (k : Int) : Grid :=
  match (k % 4).toNat with
  | 0 => g
  | 1 => g.quarterTurn
  | 2 => g.halfTurn
  | _ => g.quarterTurnBack

/-! ## Views -/

/-- The view of a left-right reflection. -/
theorem get?_reflectH (g : Grid) {r c : Nat} (hc : c < g.width) :
    g.reflectH.get? r c = g.get? r (g.width - 1 - c) := by
  rw [reflectH, get?_ofFn]
  simp only [get?, hc, flip_lt hc, and_true]

/-- The view of a top-bottom reflection. -/
theorem get?_reflectV (g : Grid) {r c : Nat} (hr : r < g.height) :
    g.reflectV.get? r c = g.get? (g.height - 1 - r) c := by
  rw [reflectV, get?_ofFn]
  simp only [get?, hr, flip_lt hr, true_and]

/-- The view of the transpose. -/
theorem get?_transpose (g : Grid) (r c : Nat) : g.transpose.get? r c = g.get? c r := by
  rw [transpose, get?_ofFn]
  simp only [get?, and_comm]

/-- The view of a quarter turn. -/
theorem get?_quarterTurn (g : Grid) {r c : Nat} (hc : c < g.height) :
    g.quarterTurn.get? r c = g.get? (g.height - 1 - c) r := by
  rw [quarterTurn, get?_ofFn]
  simp only [get?, hc, flip_lt hc, and_true, true_and]

/-- The view of a half turn. -/
theorem get?_halfTurn (g : Grid) {r c : Nat} (hr : r < g.height) (hc : c < g.width) :
    g.halfTurn.get? r c = g.get? (g.height - 1 - r) (g.width - 1 - c) := by
  rw [halfTurn, get?_ofFn]
  simp only [get?, hr, hc, flip_lt hr, flip_lt hc, and_true]

/-- The view of three quarter turns. -/
theorem get?_quarterTurnBack (g : Grid) {r c : Nat} (hr : r < g.width) :
    g.quarterTurnBack.get? r c = g.get? c (g.width - 1 - r) := by
  rw [quarterTurnBack, get?_ofFn]
  simp only [get?, hr, flip_lt hr, and_true, true_and]

end Grid

end GridRepair
