/-
# Connected cells

Two cells of a color are linked when they share a side, and joined when a path of links leads from
one to the other.  The region search finds exactly the cells that are joined to its start
(`Grid.mem_region_iff`).  Two facts carry this through the search, as `Grid.Tracing`: all that is
listed or visited is joined to the start, and all that is linked to a visited cell is marked.  When
nothing is listed any more, the visited cells are closed under links.

A fill has no marks: its loop paints the cells over that a search marks (`Grid.repaint_painted`).
So it recolors the cells that are joined to its seed and no others
(`Grid.floodFill_recolors_joined`).
-/
import Mathlib.Logic.Relation
import GridRepair.Proofs.Spreading

namespace GridRepair

/-- The cell has the given integer coordinates. -/
def Cell.IsAt (p : Cell) (row col : Int) : Prop := (p.row : Int) = row ∧ (p.col : Int) = col

/-- There is one cell at given coordinates. -/
theorem Cell.IsAt.eq {p q : Cell} {row col : Int} (hp : p.IsAt row col) (hq : q.IsAt row col) :
    p = q := by
  obtain ⟨r, c⟩ := p
  obtain ⟨r', c'⟩ := q
  simp only [Cell.IsAt] at hp hq
  rw [Cell.mk.injEq]
  omega

namespace Grid

variable {g : Grid} {color old : Color} {before seen : Marks} {todo region : List Cell}
  {origin seed p q : Cell}

/-! ## Links -/

/-- The cells share a side, and both have the color. -/
structure Linked (g : Grid) (color : Color) (p q : Cell) : Prop where
  adjacent : p.Adjacent q
  left : g.get? p.row p.col = some color
  right : g.get? q.row q.col = some color

/-- A path of cells of the color, of which each shares a side with the next, leads from the first
cell to the second one. -/
def Joined (g : Grid) (color : Color) : Cell → Cell → Prop := Relation.ReflTransGen (g.Linked color)

/-- A path from a cell of the color stays on the color. -/
theorem Joined.get?_eq (h : g.Joined color p q) (hp : g.get? p.row p.col = some color) :
    g.get? q.row q.col = some color := by
  cases h with
  | refl => exact hp
  | tail _ hlink => exact hlink.right

/-- From a visited cell of the color, the unmarked linked cells enter the search. -/
theorem mem_entering (hp : g.get? p.row p.col = some color) :
    q ∈ g.entering color seen p ↔ g.Linked color p q ∧ seen.has q = false := by
  unfold entering
  rw [List.mem_filter, Shape.mem_neighbors (contains_of_get? hp), Bool.and_eq_true, beq_iff_eq,
    Bool.not_eq_true']
  constructor
  · intro h
    exact ⟨⟨h.1.2, hp, h.2.1⟩, h.2.2⟩
  · intro h
    exact ⟨⟨contains_of_get? h.1.right, h.1.adjacent⟩, h.1.right, h.2⟩

/-! ## The region of a cell -/

/-- What a search for the region of a cell has found: the listed and visited cells are joined to
the start, which is one of them, and the cells that are linked to a visited one are marked. -/
structure Tracing (g : Grid) (color : Color) (origin : Cell) (todo : List Cell) (seen : Marks)
    (region : List Cell) : Prop where
  origin_mem : origin ∈ todo ++ region
  joined : ∀ p ∈ todo ++ region, g.Joined color origin p
  closed : ∀ p ∈ region, ∀ q, g.Linked color p q → seen.has q = true

namespace Tracing

/-- At first, only the start is listed. -/
theorem start (g : Grid) (color : Color) (p : Cell) (seen : Marks) :
    Tracing g color p [p] seen [] where
  origin_mem := List.mem_singleton_self p
  joined := by
    intro q hq
    rw [List.append_nil, List.mem_singleton] at hq
    rw [hq]
    exact .refl
  closed := nofun

/-- A visit lists the cells that are linked to the visited one. -/
theorem visit (hs : Spreading g before (p :: todo) seen region)
    (h : Tracing g color origin (p :: todo) seen region)
    (horigin : g.get? origin.row origin.col = some color) :
    Tracing g color origin (todo ++ g.entering color seen p)
      (seen.addAll (g.entering color seen p)) (p :: region) := by
  have hp : g.get? p.row p.col = some color := (h.joined p List.mem_cons_self).get?_eq horigin
  have hmarks : ∀ q, (seen.addAll (g.entering color seen p)).has q = true ↔
      q ∈ g.entering color seen p ∨ seen.has q = true := by
    intro q
    refine Marks.has_addAll (fun r hr => ?_) q
    rw [hs.shape_eq]
    exact contains_of_get? ((mem_entering hp).1 hr).1.right
  -- the visited cell goes from the listed cells to the others, so none is lost
  have hmem : ∀ q, q ∈ todo ++ g.entering color seen p ++ p :: region ↔
      q ∈ g.entering color seen p ∨ q ∈ p :: todo ++ region := by
    intro q
    simp only [List.mem_append, List.mem_cons]
    tauto
  constructor
  case origin_mem => exact (hmem origin).2 (.inr h.origin_mem)
  case joined =>
    intro q hq
    rcases (hmem q).1 hq with hnew | hold
    · exact (h.joined p List.mem_cons_self).tail ((mem_entering hp).1 hnew).1
    · exact h.joined q hold
  case closed =>
    intro r hr q hlink
    rw [hmarks q]
    rcases List.mem_cons.1 hr with rfl | hold
    · -- a linked cell that is not yet marked enters now
      cases hq : seen.has q with
      | true => exact .inr rfl
      | false => exact .inl ((mem_entering hp).2 ⟨hlink, hq⟩)
    · exact .inr (h.closed r hold q hlink)

/-- What holds of a search from its start on holds when no cell is listed any more. -/
theorem spread (hs : Spreading g before todo seen region)
    (h : Tracing g color origin todo seen region)
    (horigin : g.get? origin.row origin.col = some color) {fuel : Nat}
    (hfuel : g.shape.area ≤ region.length + fuel) :
    Tracing g color origin [] (g.spread color fuel todo seen region).2
      (g.spread color fuel todo seen region).1 := by
  induction fuel generalizing todo seen region with
  | zero =>
    rw [Grid.spread]
    exact hs.eq_nil hfuel ▸ h
  | succ fuel ih =>
    cases todo with
    | nil => exact h
    | cons p todo => exact ih hs.visit (h.visit hs horigin) (by rw [List.length_cons]; omega)

end Tracing

/-- A search for which there is fuel for every cell ends by itself: more fuel changes nothing. -/
theorem spread_eq_of_le (hs : Spreading g before todo seen region) {fuel more : Nat}
    (hfuel : g.shape.area ≤ region.length + fuel) (hmore : fuel ≤ more) :
    g.spread color more todo seen region = g.spread color fuel todo seen region := by
  induction fuel generalizing todo seen region more with
  | zero =>
    obtain rfl := hs.eq_nil hfuel
    cases more <;> rfl
  | succ fuel ih =>
    obtain ⟨rest, rfl⟩ := Nat.exists_eq_add_of_le' (Nat.lt_of_lt_of_le (Nat.succ_pos fuel) hmore)
    cases todo with
    | nil => rfl
    | cons p todo =>
      exact ih hs.visit (by rw [List.length_cons]; omega) (by omega)

/-- The region of a cell, of which no joined cell was marked before, holds the cells that are
joined to it. -/
theorem mem_region_iff (hshape : before.shape = g.shape)
    (horigin : g.get? origin.row origin.col = some color)
    (hfresh : ∀ q, g.Joined color origin q → before.has q = false) :
    p ∈ (g.region color origin before).1 ↔ g.Joined color origin p := by
  have hcontains := contains_of_get? horigin
  have hspread : Spreading g before [] (g.region color origin before).2
      (g.region color origin before).1 := spreading_region hshape hcontains
  have htrace : Tracing g color origin [] (g.region color origin before).2
      (g.region color origin before).1 :=
    (Tracing.start g color origin _).spread (Spreading.start hshape hcontains) horigin
      (Nat.le_add_left _ _)
  constructor
  · intro hp
    exact htrace.joined p hp
  · intro hjoined
    induction hjoined with
    | refl => exact htrace.origin_mem
    | tail hpath hlink ih =>
      rcases (hspread.has_iff _).1 (htrace.closed _ ih _ hlink) with hmem | hbefore
      · exact hmem
      · rw [hfresh _ (hpath.tail hlink)] at hbefore
        cases hbefore

/-- After the search for the region of a cell in an unmarked grid, the joined cells are marked. -/
theorem has_region_iff (horigin : g.get? origin.row origin.col = some color) :
    (g.region color origin (Marks.none g.shape)).2.has p = true ↔ g.Joined color origin p := by
  have hspread : Spreading g (Marks.none g.shape) []
      (g.region color origin (Marks.none g.shape)).2
      (g.region color origin (Marks.none g.shape)).1 :=
    spreading_region rfl (contains_of_get? horigin)
  rw [hspread.has_iff, List.nil_append, Marks.has_none,
    mem_region_iff rfl horigin fun q _ => Marks.has_none g.shape q]
  simp

/-! ## Filling -/

/-- Integer coordinates lead to the cell that has them, if it is inside. -/
theorem cell?_eq_some_iff {row col : Int} :
    g.cell? row col = some p ↔ p.IsAt row col ∧ g.shape.Contains p := by
  obtain ⟨r, c⟩ := p
  unfold cell? Cell.IsAt Shape.Contains
  simp only [shape, Option.ite_none_right_eq_some, Option.some.injEq, Cell.mk.injEq]
  omega

/-- The neighbors that still have the old color are the ones that are not yet marked. -/
theorem unpainted_painted (hne : old ≠ color) :
    (g.painted color seen).unpainted old p = g.entering old seen p := by
  refine List.filter_congr fun q _ => ?_
  rw [get?_painted]
  cases g.get? q.row q.col with
  | none => rfl
  | some x => cases seen.has q <;> simp [hne.symm]

/-- **A fill needs no marks.**  The loop over the painted buffer goes the way of the search with
marks, and paints what that search marks. -/
theorem repaint_painted (h : Spreading g before todo seen region) (hne : old ≠ color)
    (fuel : Nat) : repaint old color fuel todo (g.painted color seen) =
      g.painted color (g.spread old fuel todo seen region).2 := by
  induction fuel generalizing todo seen region with
  | zero => rfl
  | succ fuel ih =>
    cases todo with
    | nil => rfl
    | cons p todo =>
      have hnext : ∀ q ∈ g.entering old seen p, g.shape.Contains q := fun q hq =>
        (of_mem_entering h.contains_head hq).1
      rw [repaint, unpainted_painted hne, putAll_painted h.shape_eq hnext]
      exact ih h.visit

/-- A fill starts with its seed painted. -/
theorem put_eq_painted (hp : g.shape.Contains p) :
    g.put p color = g.painted color ((Marks.none g.shape).add p) := by
  rw [← put_painted rfl hp, painted_none]

/-- A fill from a cell of another color paints the region of that cell. -/
theorem floodFill_eq_painted {row col : Int} (hseed : seed.IsAt row col)
    (hold : g.get? seed.row seed.col = some old) (hne : old ≠ color) :
    g.floodFill row col color = g.painted color (g.region old seed (Marks.none g.shape)).2 := by
  have hinside := contains_of_get? hold
  have hstart : Spreading g (Marks.none g.shape) [seed] ((Marks.none g.shape).add seed) [] :=
    Spreading.start rfl hinside
  unfold floodFill
  rw [cell?_eq_some_iff.2 ⟨hseed, hinside⟩]
  simp only [hold, if_neg hne]
  rw [put_eq_painted hinside, repaint_painted hstart hne]
  rfl

/-- Nothing is filled when no cell at the seed has another color. -/
theorem floodFill_eq_self {row col : Int}
    (h : ∀ p : Cell, p.IsAt row col → ∀ old, g.get? p.row p.col = some old → old = color) :
    g.floodFill row col color = g := by
  unfold floodFill
  split
  · rfl
  · next p hcell =>
    split
    · rfl
    · next old hold => rw [if_pos (h p (cell?_eq_some_iff.1 hcell).1 old hold)]

/-- A fill changes nothing, or it paints the region of its seed. -/
theorem floodFill_eq_or (g : Grid) (row col : Int) (color : Color) :
    g.floodFill row col color = g ∨ ∃ seen, g.floodFill row col color = g.painted color seen := by
  by_cases h : ∀ p : Cell, p.IsAt row col → ∀ old, g.get? p.row p.col = some old → old = color
  · exact .inl (floodFill_eq_self h)
  · push Not at h
    obtain ⟨p, hp, old, hold, hne⟩ := h
    exact .inr ⟨_, floodFill_eq_painted hp hold hne⟩

/-- A fill keeps the shape. -/
theorem shape_floodFill (g : Grid) (row col : Int) (color : Color) :
    (g.floodFill row col color).shape = g.shape := by
  rcases g.floodFill_eq_or row col color with h | ⟨seen, h⟩ <;> rw [h]
  rfl

/-- A fill from a cell of another color recolors the cells that are joined to it. -/
theorem get?_floodFill {row col : Int} (hseed : seed.IsAt row col)
    (hold : g.get? seed.row seed.col = some old) (hne : old ≠ color) (p : Cell) :
    (g.Joined old seed p → (g.floodFill row col color).get? p.row p.col = some color) ∧
      (¬ g.Joined old seed p →
        (g.floodFill row col color).get? p.row p.col = g.get? p.row p.col) := by
  rw [floodFill_eq_painted hseed hold hne, get?_painted]
  constructor
  · intro hjoined
    rw [hjoined.get?_eq hold, Option.map_some, if_pos ((has_region_iff hold).2 hjoined)]
  · intro hapart
    simp only [if_neg (mt (has_region_iff hold).1 hapart), Option.map_id']

/-- A second fill from the same seed with the same color changes nothing. -/
theorem floodFill_floodFill (g : Grid) (row col : Int) (color : Color) :
    (g.floodFill row col color).floodFill row col color = g.floodFill row col color := by
  -- after the first fill, the seed has the color or is outside
  refine floodFill_eq_self fun p hp filled hfilled => ?_
  by_cases hsame : ∀ q : Cell, q.IsAt row col →
      ∀ old, g.get? q.row q.col = some old → old = color
  · rw [floodFill_eq_self hsame] at hfilled
    exact hsame p hp filled hfilled
  · push Not at hsame
    obtain ⟨q, hq, old, hold, hne⟩ := hsame
    obtain rfl := hp.eq hq
    rw [(get?_floodFill hq hold hne p).1 .refl] at hfilled
    exact (Option.some.inj hfilled).symm

/-- **A fill recolors the region of its seed.**  The search ends by itself, within a visit for every
cell, with marks as well as over the painted buffer.  If the seed is a cell of another color than
the new one, then the cells that are joined to it by cells of its color get the new color, and all
others keep theirs; otherwise nothing changes.  The shape stays, and a second fill with the same
seed and color changes nothing. -/
theorem floodFill_recolors_joined (g : Grid) (row col : Int) (color : Color) :
    (∀ seed old, seed.IsAt row col → g.get? seed.row seed.col = some old → old ≠ color →
      (∀ fuel, g.shape.area ≤ fuel →
        g.spread old fuel [seed] ((Marks.none g.shape).add seed) [] =
          g.region old seed (Marks.none g.shape) ∧
        repaint old color fuel [seed] (g.put seed color) = g.floodFill row col color) ∧
      ∀ p, (g.Joined old seed p → (g.floodFill row col color).get? p.row p.col = some color) ∧
        (¬ g.Joined old seed p →
          (g.floodFill row col color).get? p.row p.col = g.get? p.row p.col)) ∧
    ((∀ seed : Cell, seed.IsAt row col →
        ¬ g.shape.Contains seed ∨ g.get? seed.row seed.col = some color) →
      g.floodFill row col color = g) ∧
    (g.floodFill row col color).shape = g.shape ∧
    (g.floodFill row col color).floodFill row col color = g.floodFill row col color := by
  refine ⟨?_, ?_, shape_floodFill g row col color, floodFill_floodFill g row col color⟩
  · intro seed old hseed hold hne
    have hspread : Spreading g (Marks.none g.shape) [seed] ((Marks.none g.shape).add seed) [] :=
      Spreading.start rfl (contains_of_get? hold)
    have hends : ∀ fuel, g.shape.area ≤ fuel →
        g.spread old fuel [seed] ((Marks.none g.shape).add seed) [] =
          g.region old seed (Marks.none g.shape) := fun fuel hfuel =>
      spread_eq_of_le hspread (Nat.le_add_left _ _) hfuel
    refine ⟨fun fuel hfuel => ⟨hends fuel hfuel, ?_⟩, get?_floodFill hseed hold hne⟩
    rw [put_eq_painted (contains_of_get? hold), repaint_painted hspread hne, hends fuel hfuel,
      floodFill_eq_painted hseed hold hne]
  · intro h
    refine floodFill_eq_self fun p hp old hold => ?_
    rcases h p hp with hout | hcolor
    · exact absurd (contains_of_get? hold) hout
    · rw [hold] at hcolor
      exact Option.some.inj hcolor

/-- Two regions of the color 1, three cells on the left and two on the right. -/
def divided : Grid := ⟨2, 4, #[1, 1, 0, 1, 0, 1, 0, 1], rfl⟩

/-- From its upper left cell, the region on the left is filled and the one on the right is not; a
seed above the grid fills nothing, and neither does the color that is there. -/
theorem floodFill_recolors_joined_divided :
    divided.Joined 1 ⟨0, 0⟩ ⟨1, 1⟩ ∧ (divided.floodFill 0 0 5).get? 1 1 = some 5 ∧
      ¬ divided.Joined 1 ⟨0, 0⟩ ⟨0, 3⟩ ∧ (divided.floodFill 0 0 5).get? 0 3 = some 1 ∧
      divided.floodFill (-1) 0 5 = divided ∧ divided.floodFill 0 0 1 = divided ∧
      (divided.floodFill 0 0 5).floodFill 0 0 5 = divided.floodFill 0 0 5 := by
  have hseed : Cell.IsAt ⟨0, 0⟩ 0 0 := ⟨rfl, rfl⟩
  have hfill := ((floodFill_recolors_joined divided 0 0 5).1 ⟨0, 0⟩ 1 hseed rfl (by decide)).2
  have hright : Linked divided 1 ⟨0, 0⟩ ⟨0, 1⟩ := ⟨.inr ⟨rfl, .inr rfl⟩, rfl, rfl⟩
  have hdown : Linked divided 1 ⟨0, 1⟩ ⟨1, 1⟩ := ⟨.inl ⟨rfl, .inr rfl⟩, rfl, rfl⟩
  have hjoined : divided.Joined 1 ⟨0, 0⟩ ⟨1, 1⟩ := (Relation.ReflTransGen.single hright).tail hdown
  have hapart : ¬ divided.Joined 1 ⟨0, 0⟩ ⟨0, 3⟩ := by
    intro h
    have hfive := (hfill ⟨0, 3⟩).1 h
    have hone : (divided.floodFill 0 0 5).get? 0 3 = some 1 := by decide +kernel
    rw [hone] at hfive
    cases hfive
  refine ⟨hjoined, (hfill ⟨1, 1⟩).1 hjoined, hapart, (hfill ⟨0, 3⟩).2 hapart, ?_, ?_,
    (floodFill_recolors_joined divided 0 0 5).2.2.2⟩
  · refine (floodFill_recolors_joined divided (-1) 0 5).2.1 fun seed hat => ?_
    have habove : (seed.row : Int) = -1 := hat.1
    omega
  · refine (floodFill_recolors_joined divided 0 0 1).2.1 fun seed hat => ?_
    rw [hat.eq hseed]
    exact .inr rfl

end Grid

end GridRepair
