/-
# Names in order

Names of primitives are ordered letter by letter, by code point; a name comes before its
extensions.  `placeName` keeps a list of distinct names in this order.
-/

namespace GridRepair

/-- The first word comes before the second one, letter by letter. -/
def wordBefore : List Char → List Char → Bool
  | _, [] => false
  | [], _ :: _ => true
  | a :: as, b :: bs =>
    if a.toNat < b.toNat then true
    else if b.toNat < a.toNat then false
    else wordBefore as bs

/-- The first name comes before the second one. -/
def nameBefore (a b : String) : Bool := wordBefore a.toList b.toList

/-- Put a name into an ordered list, unless it is there. -/
def placeName (name : String) : List String → List String
  | [] => [name]
  | other :: rest =>
    if name = other then other :: rest
    else if nameBefore name other then name :: other :: rest
    else other :: placeName name rest

/-- The names of a list, each once and in order. -/
def orderedNames (names : List String) : List String :=
  names.foldl (fun sorted name => placeName name sorted) []

/-- Placing a name adds it and nothing else. -/
theorem mem_placeName {name other : String} {names : List String} :
    other ∈ placeName name names ↔ other = name ∨ other ∈ names := by
  induction names with
  | nil => simp [placeName]
  | cons x xs ih =>
    simp only [placeName]
    split
    · next h =>
      subst h
      simp
    · split
      · simp
      · simp only [List.mem_cons, ih]
        constructor
        · rintro (h | h | h) <;> simp [h]
        · rintro (h | h | h) <;> simp [h]

end GridRepair
