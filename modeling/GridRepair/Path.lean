/-
# Program paths

Where a node of a program stands: the step indices that lead to it from the root, through
nested compositions.
-/

namespace GridRepair

/-- Step indices from the root down; the empty path is the root. -/
abbrev Path := List Nat

namespace Path

/-- The path of the step with the given index below a node. -/
def child (path : Path) (index : Nat) : Path := path ++ [index]

/-- The path of the parent and the index below it; the root has neither. -/
def split? : Path → Option (Path × Nat)
  | [] => none
  | i :: rest =>
    match split? rest with
    | none => some ([], i)
    | some (parent, index) => some (i :: parent, index)

/-- A path in words: the indices joined by points. -/
def render : Path → String
  | [] => "root"
  | path => "step " ++ ".".intercalate (path.map toString)

/-- Splitting takes back the last step of a path. -/
@[simp] theorem split?_child (path : Path) (index : Nat) :
    split? (child path index) = some (path, index) := by
  induction path with
  | nil => rfl
  | cons i rest ih => simp_all [child, split?]

/-- What splits is a child of its parent. -/
theorem eq_child_of_split? {path parent : Path} {index : Nat}
    (h : split? path = some (parent, index)) : path = child parent index := by
  induction path generalizing parent with
  | nil => simp [split?] at h
  | cons i rest ih =>
    simp only [split?] at h
    split at h
    · next hn =>
      cases rest with
      | nil =>
        simp only [Option.some.injEq, Prod.mk.injEq] at h
        simp [child, ← h.1, ← h.2]
      | cons j tail =>
        simp only [split?] at hn
        split at hn <;> simp at hn
    · next p k hs =>
      simp only [Option.some.injEq, Prod.mk.injEq] at h
      obtain ⟨rfl, rfl⟩ := h
      simp [child, ih hs]

end Path

end GridRepair
