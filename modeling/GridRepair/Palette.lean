/-
# Palettes

A color is a small number; a palette is a finite set of colors, kept as its ascending
enumeration, so that two palettes with the same members are equal (`Palette.ext_mem`).
-/

namespace GridRepair

/-- A cell color. -/
abbrev Color := Nat

/-- The largest color of a grid. -/
def maxColor : Color := 9

/-- The color of cells without content. -/
def background : Color := 0

/-- A finite set of colors. -/
structure Palette where
  /-- the members, in ascending order -/
  colors : List Color
  ascending : colors.Pairwise (· < ·)
deriving DecidableEq

namespace Palette

instance : Membership Color Palette := ⟨fun s c => c ∈ s.colors⟩

instance (c : Color) (s : Palette) : Decidable (c ∈ s) :=
  inferInstanceAs (Decidable (c ∈ s.colors))

/-- Membership is membership in the enumeration. -/
theorem mem_def {c : Color} {s : Palette} : c ∈ s ↔ c ∈ s.colors := Iff.rfl

/-- A palette is determined by its members. -/
theorem ext_mem {s t : Palette} (h : ∀ c, c ∈ s ↔ c ∈ t) : s = t := by
  obtain ⟨xs, hx⟩ := s
  obtain ⟨ys, hy⟩ := t
  simp only [mem_def] at h
  congr
  induction xs generalizing ys with
  | nil =>
    cases ys with
    | nil => rfl
    | cons y ys => simpa using h y
  | cons x xs ih =>
    cases ys with
    | nil => simpa using h x
    | cons y ys =>
      rw [List.pairwise_cons] at hx hy
      have hxy : x = y := by
        have h₁ := (h x).1 (List.mem_cons_self ..)
        have h₂ := (h y).2 (List.mem_cons_self ..)
        rw [List.mem_cons] at h₁ h₂
        rcases h₁ with h₁ | h₁
        · exact h₁
        · rcases h₂ with h₂ | h₂
          · exact h₂.symm
          · exact absurd (hx.1 y h₂) (Nat.lt_asymm (hy.1 x h₁))
      subst hxy
      congr 1
      apply ih hx.2 ys hy.2
      intro c
      have hc := h c
      simp only [List.mem_cons] at hc
      constructor
      · intro hm
        rcases hc.1 (Or.inr hm) with e | e
        · exact absurd e (Nat.ne_of_gt (hx.1 c hm))
        · exact e
      · intro hm
        rcases hc.2 (Or.inr hm) with e | e
        · exact absurd e (Nat.ne_of_gt (hy.1 c hm))
        · exact e

/-! ## Operations -/

/-- The palette without colors. -/
def empty : Palette := ⟨[], List.Pairwise.nil⟩

/-- There is no color in the palette. -/
def isEmpty (s : Palette) : Bool := s.colors.isEmpty

/-- Put a color into an ascending list, unless it is there. -/
def place (c : Color) : List Color → List Color
  | [] => [c]
  | x :: xs => if c < x then c :: x :: xs else if c = x then x :: xs else x :: place c xs

/-- Placing a color adds it and nothing else. -/
theorem mem_place {c d : Color} {xs : List Color} : d ∈ place c xs ↔ d = c ∨ d ∈ xs := by
  induction xs with
  | nil => simp [place]
  | cons x xs ih =>
    simp only [place]
    split
    · simp
    · split
      · next hx =>
        subst hx
        simp
      · simp only [List.mem_cons, ih]
        constructor
        · rintro (h | h | h) <;> simp [h]
        · rintro (h | h | h) <;> simp [h]

/-- Placing a color keeps the order. -/
theorem pairwise_place {c : Color} {xs : List Color} (h : xs.Pairwise (· < ·)) :
    (place c xs).Pairwise (· < ·) := by
  induction xs with
  | nil => simp [place]
  | cons x xs ih =>
    rw [List.pairwise_cons] at h
    simp only [place]
    split
    · next hc =>
      refine List.pairwise_cons.2 ⟨?_, List.pairwise_cons.2 h⟩
      intro y hy
      rcases List.mem_cons.1 hy with rfl | hy
      · exact hc
      · exact Nat.lt_trans hc (h.1 y hy)
    · next hc =>
      split
      · exact List.pairwise_cons.2 h
      · next hx =>
        refine List.pairwise_cons.2 ⟨?_, ih h.2⟩
        intro y hy
        rcases mem_place.1 hy with rfl | hy
        · exact Nat.lt_of_le_of_ne (Nat.le_of_not_lt hc) (Ne.symm hx)
        · exact h.1 y hy

/-- A palette with one more color. -/
def insert (c : Color) (s : Palette) : Palette := ⟨place c s.colors, pairwise_place s.ascending⟩

/-- The colors of a list. -/
def ofList (cs : List Color) : Palette := cs.foldl (fun s c => s.insert c) empty

/-- The colors of either palette. -/
def union (s t : Palette) : Palette := t.colors.foldl (fun s c => s.insert c) s

/-- The colors that pass a test. -/
def filter (test : Color → Bool) (s : Palette) : Palette :=
  ⟨s.colors.filter test, s.ascending.filter _⟩

/-- The colors of both palettes. -/
def inter (s t : Palette) : Palette := s.filter fun c => decide (c ∈ t)

/-- The colors of the first palette that are not in the second. -/
def diff (s t : Palette) : Palette := s.filter fun c => decide (c ∉ t)

/-- A palette without one color. -/
def erase (s : Palette) (c : Color) : Palette := s.filter fun d => decide (d ≠ c)

/-- Every color of the first palette is in the second. -/
def subset (s t : Palette) : Bool := s.colors.all fun c => decide (c ∈ t)

/-! ## Members -/

/-- The empty palette has no member. -/
@[simp] theorem not_mem_empty {c : Color} : c ∉ empty := by simp [mem_def, empty]

/-- Members after an insertion. -/
@[simp] theorem mem_insert {c d : Color} {s : Palette} : d ∈ s.insert c ↔ d = c ∨ d ∈ s :=
  mem_place

/-- Members after a run of insertions. -/
theorem mem_foldl_insert {d : Color} {cs : List Color} {s : Palette} :
    d ∈ cs.foldl (fun s c => s.insert c) s ↔ d ∈ s ∨ d ∈ cs := by
  induction cs generalizing s with
  | nil => simp
  | cons c cs ih =>
    simp only [List.foldl_cons, ih, mem_insert, List.mem_cons]
    constructor
    · rintro ((h | h) | h) <;> simp [h]
    · rintro (h | h | h) <;> simp [h]

/-- Members of the palette of a list. -/
@[simp] theorem mem_ofList {d : Color} {cs : List Color} : d ∈ ofList cs ↔ d ∈ cs := by
  simp [ofList, mem_foldl_insert]

/-- Members of a union. -/
@[simp] theorem mem_union {d : Color} {s t : Palette} : d ∈ s.union t ↔ d ∈ s ∨ d ∈ t :=
  mem_foldl_insert

/-- Members that pass a test. -/
@[simp] theorem mem_filter {d : Color} {test : Color → Bool} {s : Palette} :
    d ∈ s.filter test ↔ d ∈ s ∧ test d = true := by simp [mem_def, filter]

/-- Members of an intersection. -/
@[simp] theorem mem_inter {d : Color} {s t : Palette} : d ∈ s.inter t ↔ d ∈ s ∧ d ∈ t := by
  simp [inter]

/-- Members of a difference. -/
@[simp] theorem mem_diff {d : Color} {s t : Palette} : d ∈ s.diff t ↔ d ∈ s ∧ d ∉ t := by
  simp [diff]

/-- Members after an erasure. -/
@[simp] theorem mem_erase {c d : Color} {s : Palette} : d ∈ s.erase c ↔ d ∈ s ∧ d ≠ c := by
  simp [erase]

/-- Inclusion, member by member. -/
theorem subset_iff {s t : Palette} : s.subset t = true ↔ ∀ c, c ∈ s → c ∈ t := by
  simp [subset, mem_def]

/-- A palette is empty when it has no member. -/
theorem isEmpty_iff {s : Palette} : s.isEmpty = true ↔ ∀ c, c ∉ s := by
  simp [isEmpty, mem_def, List.isEmpty_iff, List.eq_nil_iff_forall_not_mem]

end Palette

end GridRepair
