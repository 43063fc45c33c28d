/-
# Registries

The primitives a program may call, one for each name, kept in the order of their names.
-/
import GridRepair.Primitive
import GridRepair.Name

namespace GridRepair

/-- A table of primitives by name. -/
structure Registry where
  primitives : List Primitive

namespace Registry

/-- The table without primitives. -/
def empty : Registry := ⟨[]⟩

/-- The primitive of the given name. -/
def get? (reg : Registry) (name : String) : Option Primitive :=
  reg.primitives.find? fun p => p.name == name

/-- There is a primitive of the given name. -/
def contains (reg : Registry) (name : String) : Bool := (reg.get? name).isSome

/-- The primitive of the given name, or the fault that there is none. -/
def find (reg : Registry) (name : String) : Except Fault Primitive :=
  match reg.get? name with
  | some p => .ok p
  | none => .error (.unknownPrimitive name)

/-- The names, in order. -/
def names (reg : Registry) : List String := reg.primitives.map Primitive.name

/-- The number of primitives. -/
def size (reg : Registry) : Nat := reg.primitives.length

/-- Put a primitive into an ordered list in place of the one with its name, if any. -/
def place (p : Primitive) : List Primitive → List Primitive
  | [] => [p]
  | q :: qs =>
    if p.name = q.name then p :: qs
    else if nameBefore p.name q.name then p :: q :: qs
    else q :: place p qs

/-- Add a primitive, in place of the one with its name, if any. -/
def register (reg : Registry) (p : Primitive) : Registry := ⟨place p reg.primitives⟩

/-- Add primitives one after another. -/
def registerAll (reg : Registry) (ps : List Primitive) : Registry := ps.foldl register reg

/-- Apply a primitive by name. -/
def apply (reg : Registry) (name : String) (g : Grid) (args : List Value) :
    Except Fault Value := do
  let p ← reg.find name
  p.apply g args

/-- Placing a primitive changes the look-up of its own name only. -/
theorem find?_place (p : Primitive) (qs : List Primitive) (name : String) :
    (place p qs).find? (fun q => q.name == name) =
      if p.name = name then some p else qs.find? fun q => q.name == name := by
  induction qs with
  | nil => simp [place, List.find?_cons]; split <;> simp_all
  | cons q qs ih =>
    simp only [place]
    split
    · next same =>
      by_cases h : p.name = name
      · simp [h]
      · simp [h, ← same]
    · split
      · by_cases h : p.name = name <;> simp [h]
      · next other _ =>
        by_cases h : p.name = name
        · have : ¬ q.name = name := fun e => other (h.trans e.symm)
          simp [ih, h, this]
        · simp [List.find?_cons, ih, h]

/-- A registered primitive is found under its name; other names are looked up as before. -/
theorem get?_register (reg : Registry) (p : Primitive) (name : String) :
    (reg.register p).get? name = if p.name = name then some p else reg.get? name :=
  find?_place p reg.primitives name

end Registry

end GridRepair
