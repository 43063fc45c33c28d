/-
# Tasks

A task is a list of training pairs to learn from and a list of test pairs to apply the result
to.  A pair may lack its output; training pairs that do are no examples.
-/
import GridRepair.Grid

namespace GridRepair

/-- An input grid and, if it is known, its output. -/
structure Pair where
  input : Grid
  output? : Option Grid
deriving DecidableEq

/-- A training pair with its output. -/
structure Example where
  input : Grid
  output : Grid
deriving DecidableEq

/-- The example a pair gives, if its output is known. -/
def Pair.example? (p : Pair) : Option Example := p.output?.map fun out => ⟨p.input, out⟩

/-- A puzzle. -/
structure Task where
  name : String
  train : List Pair
  test : List Pair
deriving DecidableEq

/-- Why a task or a configuration cannot be loaded. -/
inductive LoadFault where
  /-- the text of a task does not describe one -/
  | unreadableTask (task : String)
  /-- a training pair lacks its output -/
  | missingOutput (task : String) (index : Nat)
  /-- the text of a configuration does not describe one -/
  | unreadableConfig
deriving DecidableEq, Repr

/-- A loading fault, in words. -/
def LoadFault.message : LoadFault → String
  | .unreadableTask task => "Failed to parse ARC task " ++ task
  | .missingOutput task index => "Task " ++ task ++ s!": training pair {index} has no output"
  | .unreadableConfig => "Invalid engine config"

namespace Task

/-- The training pairs whose output is known, in order. -/
def examples (t : Task) : List Example := t.train.filterMap Pair.example?

/-- The inputs of the test pairs, in order. -/
def testInputs (t : Task) : List Grid := t.test.map Pair.input

/-- A task whose training pairs all have outputs; anything else is refused. -/
def checked (t : Task) : Except LoadFault Task :=
  match t.train.findIdx? fun p => p.output?.isNone with
  | some index => .error (.missingOutput t.name index)
  | none => .ok t

end Task

end GridRepair
