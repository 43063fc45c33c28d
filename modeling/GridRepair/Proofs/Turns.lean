/-
# Turns and reflections

The quarter turn generates all turns: `k` turns are the power `k mod 4` of it
(`Grid.rotate_eq_iterate`), and its fourth power changes nothing.  A left-right reflection makes a
turn go the other way around (`Grid.reflectH_quarterTurn`).

From these relations, and from the fact that the reflections and the transpose are their own
inverses, come the laws of the symmetry group of the rectangle (`Grid.rotate_reflect_laws`).
-/
import Mathlib.Data.Int.ModEq
import Mathlib.Dynamics.PeriodicPts.Defs
import GridRepair.Symmetry

namespace GridRepair

namespace Grid

/-! ## Reflections -/

/-- Counting from the other end twice is counting from the first end. -/
theorem flip_flip {n i : Nat} (h : i < n) : n - 1 - (n - 1 - i) = i := by omega

/-- Two left-right reflections cancel. -/
theorem reflectH_reflectH (g : Grid) : g.reflectH.reflectH = g := by
  refine ext_inside rfl fun r c _ (hc : c < g.width) => ?_
  rw [get?_reflectH g.reflectH hc]
  show g.reflectH.get? r (g.width - 1 - c) = g.get? r c
  rw [get?_reflectH g (flip_lt hc), flip_flip hc]

/-- Two top-bottom reflections cancel. -/
theorem reflectV_reflectV (g : Grid) : g.reflectV.reflectV = g := by
  refine ext_inside rfl fun r c (hr : r < g.height) _ => ?_
  rw [get?_reflectV g.reflectV hr]
  show g.reflectV.get? (g.height - 1 - r) c = g.get? r c
  rw [get?_reflectV g (flip_lt hr), flip_flip hr]

/-- Two transposes cancel. -/
theorem transpose_transpose (g : Grid) : g.transpose.transpose = g := by
  refine ext_get? rfl fun r c => ?_
  rw [get?_transpose, get?_transpose]

/-! ## Turns by reflections -/

/-- A quarter turn is a transpose followed by a left-right reflection. -/
theorem reflectH_transpose (g : Grid) : g.transpose.reflectH = g.quarterTurn := by
  refine ext_inside rfl fun r c _ (hc : c < g.height) => ?_
  rw [get?_reflectH g.transpose hc, get?_transpose, get?_quarterTurn g hc]
  rfl

/-- A quarter turn is a top-bottom reflection followed by a transpose. -/
theorem transpose_reflectV (g : Grid) : g.reflectV.transpose = g.quarterTurn := by
  refine ext_inside rfl fun r c _ (hc : c < g.height) => ?_
  rw [get?_transpose, get?_reflectV g hc, get?_quarterTurn g hc]

/-- A half turn is both reflections. -/
theorem reflectV_reflectH (g : Grid) : g.reflectH.reflectV = g.halfTurn := by
  refine ext_inside rfl fun r c (hr : r < g.height) (hc : c < g.width) => ?_
  rw [get?_reflectV g.reflectH hr, get?_reflectH g hc, get?_halfTurn g hr hc]
  rfl

/-- Three quarter turns are a left-right reflection followed by a transpose. -/
theorem transpose_reflectH (g : Grid) : g.reflectH.transpose = g.quarterTurnBack := by
  refine ext_inside rfl fun r c (hr : r < g.width) _ => ?_
  rw [get?_transpose, get?_reflectH g hr, get?_quarterTurnBack g hr]

/-- A top-bottom reflection is a left-right reflection between two transposes. -/
theorem transpose_reflectH_transpose (g : Grid) : g.transpose.reflectH.transpose = g.reflectV := by
  rw [reflectH_transpose, ← transpose_reflectV, transpose_transpose]

/-! ## Powers of the quarter turn -/

/-- Two quarter turns are a half turn. -/
theorem quarterTurn_quarterTurn (g : Grid) : g.quarterTurn.quarterTurn = g.halfTurn := by
  refine ext_inside rfl fun r c (hr : r < g.height) (hc : c < g.width) => ?_
  rw [get?_quarterTurn g.quarterTurn hc, get?_quarterTurn g hr, get?_halfTurn g hr hc]
  rfl

/-- A quarter turn and a half turn are three quarter turns. -/
theorem halfTurn_quarterTurn (g : Grid) : g.quarterTurn.halfTurn = g.quarterTurnBack := by
  refine ext_inside rfl fun r c (hr : r < g.width) (hc : c < g.height) => ?_
  rw [get?_halfTurn g.quarterTurn hr hc, get?_quarterTurnBack g hr]
  show g.quarterTurn.get? (g.width - 1 - r) (g.height - 1 - c) = g.get? c (g.width - 1 - r)
  rw [get?_quarterTurn g (flip_lt hc), flip_flip hc]

/-- A quarter turn and three more change nothing. -/
theorem quarterTurnBack_quarterTurn (g : Grid) : g.quarterTurn.quarterTurnBack = g := by
  rw [← transpose_reflectH, ← reflectH_transpose, reflectH_reflectH, transpose_transpose]

/-- Three quarter turns, one after another. -/
theorem iterate_three_quarterTurn (g : Grid) : quarterTurn^[3] g = g.quarterTurnBack := by
  show g.quarterTurn.quarterTurn.quarterTurn = g.quarterTurnBack
  rw [quarterTurn_quarterTurn, halfTurn_quarterTurn]

/-- Four quarter turns change nothing. -/
theorem isPeriodicPt_quarterTurn (g : Grid) : Function.IsPeriodicPt quarterTurn 4 g := by
  show quarterTurn^[3] g.quarterTurn = g
  rw [iterate_three_quarterTurn, quarterTurnBack_quarterTurn]

/-- Turns are powers of the quarter turn. -/
theorem rotate_eq_iterate (g : Grid) (k : Int) : g.rotate k = quarterTurn^[(k % 4).toNat] g := by
  have hk : k % 4 = 0 ∨ k % 4 = 1 ∨ k % 4 = 2 ∨ k % 4 = 3 := by omega
  unfold rotate
  rcases hk with h | h | h | h <;> rw [h]
  · rfl
  · rfl
  · exact (quarterTurn_quarterTurn g).symm
  · exact (iterate_three_quarterTurn g).symm

/-- A number of quarter turns that is `k` modulo four. -/
theorem iterate_quarterTurn (g : Grid) {n : Nat} {k : Int} (h : (n : Int) ≡ k [ZMOD 4]) :
    quarterTurn^[n] g = g.rotate k := by
  have hn : n % 4 = (k % 4).toNat := by
    unfold Int.ModEq at h
    omega
  rw [rotate_eq_iterate, ← hn, (isPeriodicPt_quarterTurn g).iterate_mod_apply]

/-- Turning twice adds the turns up. -/
theorem rotate_rotate (g : Grid) {a b k : Int} (h : k ≡ a + b [ZMOD 4]) :
    (g.rotate a).rotate b = g.rotate k := by
  rw [rotate_eq_iterate g a, rotate_eq_iterate _ b, ← Function.iterate_add_apply]
  apply iterate_quarterTurn
  unfold Int.ModEq at *
  omega

/-- A left-right reflection makes a quarter turn go the other way around. -/
theorem reflectH_quarterTurn (g : Grid) : g.quarterTurn.reflectH = g.reflectH.quarterTurnBack := by
  rw [← reflectH_transpose, reflectH_reflectH, ← transpose_reflectH, reflectH_reflectH]

/-- A left-right reflection makes every turn go the other way around. -/
theorem reflectH_rotate (g : Grid) {a k : Int} (h : k ≡ -a [ZMOD 4]) :
    (g.rotate a).reflectH = g.reflectH.rotate k := by
  -- three quarter turns for each one, by the reflection of a single turn
  have hback : Function.Semiconj reflectH quarterTurn quarterTurn^[3] := by
    intro x
    rw [reflectH_quarterTurn, iterate_three_quarterTurn]
  rw [rotate_eq_iterate, (hback.iterate_right _).eq, ← Function.iterate_mul]
  apply iterate_quarterTurn
  unfold Int.ModEq at *
  omega

/-- **The laws of turns and reflections.**  Turns add up modulo four; both reflections and the
transpose are their own inverses; a quarter turn is a top-bottom reflection followed by a transpose,
and a half turn is both reflections; and a turn before a left-right reflection is the opposite turn
after it. -/
theorem rotate_reflect_laws (g : Grid) (a b : Int) :
    (∀ k, k ≡ a + b [ZMOD 4] → (g.rotate a).rotate b = g.rotate k) ∧
    g.reflectH.reflectH = g ∧ g.reflectV.reflectV = g ∧ g.transpose.transpose = g ∧
    g.rotate 1 = g.reflectV.transpose ∧ g.rotate 2 = g.reflectH.reflectV ∧
    ∀ k, k ≡ -a [ZMOD 4] → (g.rotate a).reflectH = g.reflectH.rotate k := by
  refine ⟨?_, reflectH_reflectH g, reflectV_reflectV g, transpose_transpose g,
    (transpose_reflectV g).symm, (reflectV_reflectH g).symm, ?_⟩
  · intro k hk
    exact rotate_rotate g hk
  · intro k hk
    exact reflectH_rotate g hk

/-- Five turns back and two more are one turn, also when written as minus seven; and a reflection
after five turns back is one before a turn back. -/
theorem rotate_reflect_laws_oblong :
    let g : Grid := ⟨2, 3, #[1, 2, 3, 4, 5, 6], rfl⟩
    (g.rotate (-5)).rotate 2 = g.rotate (-7) ∧ (g.rotate (-7)).cells = #[4, 1, 5, 2, 6, 3] ∧
      (g.rotate (-5)).reflectH = g.reflectH.rotate (-3) ∧
      (g.reflectH.rotate (-3)).cells = #[6, 3, 5, 2, 4, 1] := by
  intro g
  have hlaws := rotate_reflect_laws g (-5) 2
  exact ⟨hlaws.1 (-7) (by decide), by decide +kernel, hlaws.2.2.2.2.2.2 (-3) (by decide),
    by decide +kernel⟩

end Grid

end GridRepair
