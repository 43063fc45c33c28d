/-
# Programs keep grids valid

A program over the catalogue that starts from a valid grid, with valid grid literals, never makes
anything else than valid grids, and never touches a cell outside one.  The first part is about the
grids that a program produces, the final one and those between its steps (`Program.produced`); their
sides are bounded by `maxSide`, the sides of the start and those of the grid literals
(`Program.sideLimit`).  The second part is an equation: with the guarded registry, where an access
outside a grid, a malformed grid and an unfinished search are breaches, the program evaluates to the
same, and to no breach (`Program.eval_keeps_valid`).

Both follow from one induction over the program: a step takes a sound grid to a sound grid, and the
two registries agree on it (`guards_eval`).
-/
import Mathlib.Data.List.MinMax
import GridRepair.Proofs.Evaluation
import GridRepair.Proofs.GuardedCatalogue

namespace GridRepair

/-- The larger side of a grid. -/
def Grid.side (g : Grid) : Nat := max g.height g.width

namespace Program

/-! ## Literals and produced grids -/

mutual

/-- The grid literals that occur in a program, those among arguments included. -/
def gridLiterals : Program → List Grid
  | .call _ args => gridLiteralsAll args
  | .compose steps => gridLiteralsAll steps
  | .literal v => v.grid?.toList

/-- The grid literals that occur in a list of programs. -/
def gridLiteralsAll : List Program → List Grid
  | [] => []
  | p :: ps => gridLiterals p ++ gridLiteralsAll ps

end

/-- The largest of `maxSide`, the sides of a grid and the sides of the grid literals. -/
def sideLimit (p : Program) (g : Grid) : Nat :=
  (maxSide :: (g :: p.gridLiterals).map Grid.side).foldr max 0

mutual

/-- The grids that calls and literals produce while a program is evaluated, in this order.  The last
one is the value of the program if that is a grid; without a value the list holds what was produced
before the fault. -/
def produced (reg : Registry) : Program → Grid → List Grid
  | .call name args, g => ((eval reg (.call name args) g).toOption.bind Value.grid?).toList
  | .compose steps, g => producedSteps reg steps g
  | .literal v, _ => v.grid?.toList

/-- The grids that calls and literals produce while steps are evaluated. -/
def producedSteps (reg : Registry) : List Program → Grid → List Grid
  | [], _ => []
  | p :: ps, g =>
    produced reg p g ++
      match eval reg p g with
      | .ok (.grid g') => producedSteps reg ps g'
      | _ => []

end

variable {limit : Nat} {g : Grid}

/-- A value is sound when the grid literals of its literal are. -/
theorem sound_literal_iff {v : Value} :
    (∀ m ∈ (literal v).gridLiterals, m.Sound limit) ↔ v.Sound limit := by
  simp only [gridLiterals, Option.mem_toList]
  exact Value.sound_iff.symm

theorem guards_literals (name : String) (index : Nat) (args : List Program)
    (h : ∀ m ∈ gridLiteralsAll args, m.Sound limit) :
    Guards (fun vs => ∀ v ∈ vs, v.Sound limit) (literals name index args)
      (literals name index args) := by
  induction args generalizing index with
  | nil => exact .ok nofun
  | cons p ps ih =>
    rw [gridLiteralsAll, List.forall_mem_append] at h
    cases p with
    | call _ _ => exact .error nofun
    | compose _ => exact .error nofun
    | literal v =>
      refine (ih (index + 1) h.2).bind fun vs hvs => .ok fun w hw => ?_
      rcases List.mem_cons.1 hw with rfl | hw
      · exact sound_literal_iff.1 h.1
      · exact hvs w hw

/-! ## Evaluation -/

mutual

/-- The two registries agree on a program, and its value is sound. -/
theorem guards_eval (hlimit : maxSide ≤ limit) : ∀ (p : Program) (g : Grid),
    (∀ m ∈ p.gridLiterals, m.Sound limit) → g.Sound limit →
    Guards (Value.Sound limit) (p.eval .guarded g) (p.eval .standard g)
  | .call name args, g, hliterals, hg => by
    rw [gridLiterals] at hliterals
    rw [eval, eval]
    rcases Registry.find_cases Registry.guardedBy_guarded name with
      ⟨hp, hq⟩ | ⟨p, q, hp, hq, hguarded⟩
    · rw [hp, hq]
      exact .error nofun
    · rw [hp, hq, ok_bind, ok_bind]
      exact (guards_literals name 0 args hliterals).bind fun _ hvs =>
        hguarded.guards_apply hlimit hg hvs
  | .compose steps, g, hliterals, hg => by
    rw [gridLiterals] at hliterals
    rw [eval, eval]
    exact guards_evalSteps hlimit steps g hliterals hg
  | .literal v, g, hliterals, _ => by
    rw [eval, eval]
    exact .ok (sound_literal_iff.1 hliterals)

/-- The two registries agree on a list of steps, and its value is sound. -/
theorem guards_evalSteps (hlimit : maxSide ≤ limit) : ∀ (ps : List Program) (g : Grid),
    (∀ m ∈ gridLiteralsAll ps, m.Sound limit) → g.Sound limit →
    Guards (Value.Sound limit) (evalSteps .guarded ps g) (evalSteps .standard ps g)
  | [], _, _, _ => .error nofun
  | [p], g, hliterals, hg => by
    rw [gridLiteralsAll, List.forall_mem_append] at hliterals
    rw [evalSteps_singleton, evalSteps_singleton]
    exact guards_eval hlimit p g hliterals.1 hg
  | p :: q :: ps, g, hliterals, hg => by
    rw [gridLiteralsAll, List.forall_mem_append] at hliterals
    rw [evalSteps.eq_3 _ g p (q :: ps) (List.cons_ne_nil q ps),
      evalSteps.eq_3 _ g p (q :: ps) (List.cons_ne_nil q ps)]
    refine (guards_eval hlimit p g hliterals.1 hg).bind fun v hv => ?_
    cases v with
    | grid g' => exact guards_evalSteps hlimit (q :: ps) g' hliterals.2 hv
    | int _ => exact .error nofun
    | bool _ => exact .error nofun
    | colors _ => exact .error nofun
    | positions _ => exact .error nofun

end

mutual

/-- All grids that a program produces are sound. -/
theorem sound_produced (hlimit : maxSide ≤ limit) : ∀ (p : Program) (g : Grid),
    (∀ m ∈ p.gridLiterals, m.Sound limit) → g.Sound limit →
    ∀ out ∈ p.produced .standard g, out.Sound limit
  | .call name args, g, hliterals, hg, out, hout => by
    rw [produced] at hout
    have hguards := guards_eval hlimit (.call name args) g hliterals hg
    cases heval : (call name args).eval .standard g with
    | error fault =>
      rw [heval] at hout
      cases hout
    | ok v =>
      rw [heval] at hout
      exact Value.sound_iff.1 (hguards.of_ok heval) out (Option.mem_toList.1 hout)
  | .compose steps, g, hliterals, hg, out, hout => by
    rw [gridLiterals] at hliterals
    rw [produced] at hout
    exact sound_producedSteps hlimit steps g hliterals hg out hout
  | .literal v, g, hliterals, _, out, hout => by
    rw [produced] at hout
    exact Value.sound_iff.1 (sound_literal_iff.1 hliterals) out (Option.mem_toList.1 hout)

/-- All grids that steps produce are sound. -/
theorem sound_producedSteps (hlimit : maxSide ≤ limit) : ∀ (ps : List Program) (g : Grid),
    (∀ m ∈ gridLiteralsAll ps, m.Sound limit) → g.Sound limit →
    ∀ out ∈ producedSteps .standard ps g, out.Sound limit
  | [], _, _, _, _, hout => by
    rw [producedSteps] at hout
    cases hout
  | p :: ps, g, hliterals, hg, out, hout => by
    rw [gridLiteralsAll, List.forall_mem_append] at hliterals
    rw [producedSteps, List.mem_append] at hout
    rcases hout with hout | hout
    · exact sound_produced hlimit p g hliterals.1 hg out hout
    · have hguards := guards_eval hlimit p g hliterals.1 hg
      split at hout
      · next g' heval =>
        exact sound_producedSteps hlimit ps g' hliterals.2 (hguards.of_ok heval) out hout
      · cases hout

end

mutual

/-- The value of a program is among the grids that it produces, if it is a grid. -/
theorem mem_produced {reg : Registry} : ∀ (p : Program) (g out : Grid),
    p.eval reg g = .ok (.grid out) → out ∈ p.produced reg g
  | .call name args, g, out, h => by
    rw [produced, h]
    exact List.mem_singleton_self out
  | .compose steps, g, out, h => by
    rw [eval] at h
    rw [produced]
    exact mem_producedSteps steps g out h
  | .literal v, g, out, h => by
    rw [eval, Except.ok.injEq] at h
    rw [produced, h]
    exact List.mem_singleton_self out

/-- The value of steps is among the grids that they produce, if it is a grid. -/
theorem mem_producedSteps {reg : Registry} : ∀ (ps : List Program) (g out : Grid),
    evalSteps reg ps g = .ok (.grid out) → out ∈ producedSteps reg ps g
  | [], _, _, h => by
    rw [evalSteps] at h
    cases h
  | [p], g, out, h => by
    rw [evalSteps_singleton] at h
    rw [producedSteps]
    exact List.mem_append_left _ (mem_produced p g out h)
  | p :: q :: ps, g, out, h => by
    obtain ⟨g', hfirst, hrest⟩ := (evalSteps_cons_eq_ok_iff (List.cons_ne_nil q ps)).1 h
    rw [producedSteps, hfirst]
    exact List.mem_append_right _ (mem_producedSteps (q :: ps) g' out hrest)

end

/-! ## The limit of the sides -/

/-- The start and the grid literals are sound within the limit of the program. -/
theorem sound_sideLimit {p : Program} {start m : Grid} (hm : m.Valid)
    (h : m ∈ start :: p.gridLiterals) : m.Sound (p.sideLimit start) := by
  have hside : m.side ≤ p.sideLimit start :=
    List.le_max_of_le' 0 (List.mem_cons_of_mem _ (List.mem_map_of_mem h)) le_rfl
  exact ⟨hm, (le_max_left _ _).trans hside, (le_max_right _ _).trans hside⟩

/-- Evaluating a program over the catalogue on a valid grid keeps grids valid.  The program may nest
in any way and have any arguments, as long as its grid literals are valid.

With all accesses, constructions and searches guarded it evaluates to the same, and no guard is hit;
so every cell that is read or written lies inside its grid, and every search ends.  Every grid that
is produced on the way, the value included, has at least one cell, as many colors as its sides say,
only colors, and no side beyond the limit. -/
theorem eval_keeps_valid (p : Program) (g : Grid) (hg : g.Valid)
    (hliterals : ∀ m ∈ p.gridLiterals, m.Valid) :
    p.eval .guarded g = p.eval .standard g ∧
    (∀ cause, p.eval .standard g ≠ .error (.breach cause)) ∧
    (∀ out, p.eval .standard g = .ok (.grid out) → out ∈ p.produced .standard g) ∧
    ∀ out ∈ p.produced .standard g,
      1 ≤ out.height ∧ 1 ≤ out.width ∧ out.cells.size = out.height * out.width ∧
      (∀ c ∈ out.cells, c ≤ maxColor) ∧
      out.height ≤ p.sideLimit g ∧ out.width ≤ p.sideLimit g := by
  have hlimit : maxSide ≤ p.sideLimit g := List.le_max_of_le' 0 List.mem_cons_self le_rfl
  have hstart : g.Sound (p.sideLimit g) := sound_sideLimit hg List.mem_cons_self
  have hsound : ∀ m ∈ p.gridLiterals, m.Sound (p.sideLimit g) := fun m hm =>
    sound_sideLimit (hliterals m hm) (List.mem_cons_of_mem g hm)
  have hguards := guards_eval hlimit p g hsound hstart
  refine ⟨hguards.eq, hguards.ne_breach, mem_produced p g, fun out hout => ?_⟩
  have h := sound_produced hlimit p g hsound hstart out hout
  exact ⟨h.height_pos, h.width_pos, out.size_cells, h.valid.2.2, h.height_le, h.width_le⟩

/-- Three rows with four colors. -/
def canvas : Grid := ⟨3, 4, #[0, 1, 1, 0, 2, 0, 1, 0, 2, 2, 0, 3], rfl⟩

/-- A program that works across the edges of its grids: a rectangle that reaches far outside, a fill
from a corner, a source that begins to the left of the first column, a cut, an extreme number of
turns and cut copies. -/
def collage : Program :=
  .compose
    [.apply "draw_rect_outline" [.int 1, .int 0, .int maxInt, .int maxInt, .int 4],
      .apply "flood_fill" [.int 0, .int 3, .int 5],
      .compose
        [.apply "paste" [.grid ⟨1, 3, #[7, 0, 1], rfl⟩, .int 2, .int (-1)],
          .apply "crop_largest_object" []],
      .apply "rotate90" [.int (minInt + 1)],
      .apply "tile_to_size" [.int 2, .int 6]]

/-- The collage produces six grids, the last of them its value, and all of them are valid and within
the limit of the catalogue; the value is the same with guards. -/
theorem eval_keeps_valid_collage :
    (∃ out, collage.eval .guarded canvas = .ok (.grid out) ∧
      out.cells = #[4, 4, 4, 4, 4, 4, 1, 4, 1, 4, 1, 4] ∧ out ∈ collage.produced .standard canvas) ∧
    (collage.produced .standard canvas).length = 6 ∧
    ∀ out ∈ collage.produced .standard canvas,
      out.cells.size = out.height * out.width ∧ (∀ c ∈ out.cells, c ≤ maxColor) ∧
      out.height ≤ 256 ∧ out.width ≤ 256 := by
  have hlimit : collage.sideLimit canvas = 256 := by decide +kernel
  obtain ⟨hguarded, -, hvalue, hproduced⟩ :=
    eval_keeps_valid collage canvas (by decide) (by decide +kernel)
  obtain ⟨out, hrun, hcells⟩ : ∃ out, collage.run .standard canvas = .ok out ∧
      out.cells = #[4, 4, 4, 4, 4, 4, 1, 4, 1, 4, 1, 4] := exists_ok_of_map (by decide +kernel)
  have hout := run_eq_ok_iff.1 hrun
  refine ⟨⟨out, hguarded.trans hout, hcells, hvalue out hout⟩, by decide +kernel, fun g hg => ?_⟩
  obtain ⟨-, -, hsize, hcolors, hheight, hwidth⟩ := hproduced g hg
  rw [hlimit] at hheight hwidth
  exact ⟨hsize, hcolors, hheight, hwidth⟩

end Program

end GridRepair
