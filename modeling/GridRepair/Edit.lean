/-
# Edits of programs

An edit names one structural change and the place where it happens; `Edit.apply` carries it
out.  An edit that does not fit the program is malformed and says why.

Only the steps of compositions have addresses.  Removing the last but one step of a
composition leaves the other step in its place.
-/
import GridRepair.Program
import GridRepair.Limits

namespace GridRepair

/-- The groups of changes. -/
inductive Edit.Family where
  | swap
  | tweak
  | insert
  | remove
  | reorder
deriving DecidableEq, Repr

/-- The families in their usual order. -/
def Edit.Family.all : List Edit.Family := [.swap, .tweak, .insert, .remove, .reorder]

/-- One structural change. -/
inductive Edit where
  /-- call another primitive with the same arguments -/
  | swap (location : Path) (name replacement : String)
  /-- set an integer argument; without an old value the argument was omitted -/
  | tweak (location : Path) (index : Nat) (old? : Option Int) (new : Int)
  /-- insert a step into a composition; a call becomes a composition first -/
  | insert (location : Path) (index : Nat) (step : Program)
  /-- drop a step of a composition -/
  | remove (location : Path)
  /-- exchange a step of a composition with the next one -/
  | reorder (location : Path)
deriving DecidableEq

namespace Program

/-- Change the node at a path; `absent` is the fault when there is none. -/
def modify (change : Program → Except Fault Program) (absent : Fault) :
    Program → Path → Except Fault Program
  | p, [] => change p
  | .compose steps, i :: path =>
    match steps[i]? with
    | some step => do
      let step' ← modify change absent step path
      pure (.compose (steps.set i step'))
    | none => .error absent
  | _, _ :: _ => .error absent

/-- Change the node at a path, which has to exist. -/
def modifyAt (p : Program) (path : Path) (change : Program → Except Fault Program) :
    Except Fault Program :=
  modify change (.malformedEdit (.noNode path)) p path

/-- Change the steps of the composition at a path. -/
def modifySteps (p : Program) (path : Path)
    (change : List Program → Except Fault Program) : Except Fault Program :=
  p.modifyAt path fun
    | .compose steps => change steps
    | _ => .error (.malformedEdit (.notComposition path))

/-- A composition of steps, or the only step itself. -/
def collapse : List Program → Program
  | [p] => p
  | steps => .compose steps

/-- Exchange the elements at an index and the next one. -/
def exchange {α : Type} : Nat → List α → List α
  | 0, x :: y :: rest => y :: x :: rest
  | i + 1, x :: rest => x :: exchange i rest
  | _, rest => rest

end Program

namespace Edit

/-- The family of an edit. -/
def family : Edit → Edit.Family
  | .swap .. => .swap
  | .tweak .. => .tweak
  | .insert .. => .insert
  | .remove _ => .remove
  | .reorder _ => .reorder

/-- An edit in words. -/
def render : Edit → String
  | .swap location name replacement =>
    "swap " ++ name ++ " for " ++ replacement ++ " at " ++ location.render
  | .tweak location index (some old) new =>
    s!"set argument {index} at " ++ location.render ++ s!" from {old} to {new}"
  | .tweak location index none new =>
    s!"set default argument {index} at " ++ location.render ++ s!" to {new}"
  | .insert location index step =>
    "insert " ++ step.render ++ s!" as step {index} of " ++ location.render
  | .remove location => "remove " ++ location.render
  | .reorder location => "swap " ++ location.render ++ " with the following step"

/-- The same call of another primitive. -/
def rename (location : Path) (name replacement : String) : Program → Except Fault Program
  | .call other args =>
    if other = name then .ok (.call replacement args)
    else .error (.malformedEdit (.otherPrimitive name location))
  | _ => .error (.malformedEdit (.otherPrimitive name location))

/-- The same call with one integer argument set: one that is given, or the next one. -/
def setArgument (location : Path) (index : Nat) (new : Int) : Program → Except Fault Program
  | .call name args =>
    match args[index]? with
    | some (.literal (.int _)) => .ok (.call name (args.set index (.literal (.int new))))
    | some _ => .error (.malformedEdit (.notInteger index location))
    | none =>
      if index = args.length then .ok (.call name (args ++ [.literal (.int new)]))
      else .error (.malformedEdit (.skipsArgument index args.length location))
  | _ => .error (.malformedEdit (.notPrimitive location))

/-- The steps with one more before the given index. -/
def insertStep (location : Path) (index : Nat) (step : Program) (steps : List Program) :
    Except Fault Program :=
  if index ≤ steps.length then .ok (.compose (steps.insertIdx index step))
  else .error (.malformedEdit (.pastEnd index location))

/-- The steps of a composition, or a call as the only step. -/
def insertBelow (location : Path) (index : Nat) (step : Program) : Program → Except Fault Program
  | .compose steps => insertStep location index step steps
  | .call name args => insertStep location index step [.call name args]
  | .literal _ => .error (.malformedEdit (.notComposition location))

/-- The steps without the one at the given index, of at least two. -/
def removeStep (location : Path) (index : Nat) (steps : List Program) : Except Fault Program :=
  if 2 ≤ steps.length ∧ index < steps.length then
    .ok (Program.collapse (steps.eraseIdx index))
  else .error (.malformedEdit (.notRemovable location))

/-- The steps with those at the given index and after it exchanged.  The largest index has no
successor to compare with. -/
def reorderStep (location : Path) (index : Nat) (steps : List Program) : Except Fault Program :=
  if maxCount ≤ index then .error (.breach .index)
  else if index + 1 < steps.length then .ok (.compose (Program.exchange index steps))
  else .error (.malformedEdit (.noFollower location))

/-- The program after an edit. -/
def apply (edit : Edit) (p : Program) : Except Fault Program :=
  match edit with
  | .swap location name replacement =>
    p.modifyAt location (rename location name replacement)
  | .tweak location index _ new => p.modifyAt location (setArgument location index new)
  | .insert location index step => p.modifyAt location (insertBelow location index step)
  | .remove location =>
    match Path.split? location with
    | some (parent, index) => p.modifySteps parent (removeStep location index)
    | none => .error (.malformedEdit .removesRoot)
  | .reorder location =>
    match Path.split? location with
    | some (parent, index) => p.modifySteps parent (reorderStep location index)
    | none => .error (.malformedEdit .reordersRoot)

end Edit

end GridRepair
