/-
# Verdicts

A program is run on the examples of a task and every prediction is compared with its expected
output.  It is certified when all examples are solved, running it again gives the same grids,
and, if that is asked for, no prediction has a color outside the training outputs.

Faults of the program propagate; wrong predictions do not: they lower its score.
-/
import GridRepair.Eval
import GridRepair.Hint
import GridRepair.Invariant

namespace GridRepair

/-- How strictly programs are judged. -/
structure Strictness where
  /-- repeated runs on each example, of which there is at least one -/
  reruns : Nat
  /-- refuse certification when a prediction has a color that no training output has -/
  boundPalette : Bool
  /-- run the program on the test inputs too -/
  runTests : Bool
deriving DecidableEq, Repr

/-- The usual strictness. -/
def Strictness.standard : Strictness := ⟨1, true, true⟩

/-- The judgement of a program on a task. -/
structure Verdict (S : Type) where
  task : String
  program : Program
  /-- one comparison for each example -/
  diffs : List (Diff S)
  /-- there are examples and all of them are solved -/
  exactAll : Bool
  /-- running the program again gave the same grids -/
  deterministic : Bool
  /-- every color of a prediction occurs in a training output -/
  withinPalette : Bool
  certified : Bool
  /-- the same as `certified` -/
  approved : Bool
  /-- the invariants of the task that all predictions agree with -/
  satisfied : List Invariant
  score : S
  meanAccuracy : S
  cost : Nat
  hints : List Hint

/-- The number of solved examples. -/
def Verdict.solved {S : Type} (v : Verdict S) : Nat := v.diffs.countP fun d => d.exact

namespace Program

variable {S : Type} [Scalar S]

/-- The predictions of a program on a list of examples. -/
def predictions (reg : Registry) (p : Program) : List Example → Except Fault (List Grid)
  | [] => .ok []
  | e :: es => do
    let out ← p.run reg e.input
    let outs ← predictions reg p es
    pure (out :: outs)

/-- The comparisons of predictions with the outputs of their examples. -/
def compare (examples : List Example) (outs : List Grid) : List (Diff S) :=
  examples.zipWith (fun e out => Diff.between out e.output) outs

/-- The comparisons of a program on a task, one for each example. -/
def diffs (reg : Registry) (p : Program) (t : Task) : Except Fault (List (Diff S)) := do
  let outs ← p.predictions reg t.examples
  pure (compare t.examples outs)

/-- The score of a program on a task. -/
def score (reg : Registry) (p : Program) (t : Task) : Except Fault S := do
  let ds ← p.diffs reg t
  pure (Diff.total ds)

/-- The prediction for the first example breaks no invariant on shapes. -/
def shapesFit (reg : Registry) (p : Program) (t : Task) : Except Fault Bool :=
  match t.examples with
  | [] => .ok true
  | e :: _ => do
    let out ← p.run reg e.input
    let broken ← (Invariants.ofTask t).brokenShapes e.input out
    pure broken.isEmpty

/-- So many further runs on an input give the same grid. -/
def repeats (reg : Registry) (p : Program) (input out : Grid) : Nat → Except Fault Bool
  | 0 => .ok true
  | n + 1 => do
    let again ← p.run reg input
    if again = out then p.repeats reg input out n else pure false

/-- So many further runs on each example give the predicted grids. -/
def reproduces (reg : Registry) (p : Program) (runs : Nat) :
    List Example → List Grid → Except Fault Bool
  | e :: es, out :: outs => do
    if ← p.repeats reg e.input out runs then p.reproduces reg runs es outs else pure false
  | _, _ => .ok true

/-- All predictions on a list of inputs have only the colors of a palette. -/
def staysWithin (reg : Registry) (p : Program) (colors : Palette) :
    List Grid → Except Fault Bool
  | [] => .ok true
  | input :: inputs => do
    let out ← p.run reg input
    let rest ← p.staysWithin reg colors inputs
    pure (out.palette.subset colors && rest)

/-- The predictions on the test inputs have only colors of the training outputs.  Where tests are
not run, nothing speaks against it. -/
def testsWithin (reg : Registry) (strictness : Strictness) (p : Program) (t : Task) :
    Except Fault Bool :=
  if strictness.runTests then
    p.staysWithin reg (Invariants.ofTask t).outputPalette t.testInputs
  else .ok true

/-- The verdict that the findings about a program amount to: its predictions for the examples,
whether they were reproduced, whether the test predictions stay within the training outputs'
palette, the invariants it satisfies, and its cost. -/
def judge (p : Program) (strictness : Strictness) (t : Task) (outs : List Grid)
    (deterministic testsWithin : Bool) (satisfied : List Invariant) (cost : Nat) : Verdict S :=
  let invariants := Invariants.ofTask t
  let ds : List (Diff S) := compare t.examples outs
  let exactAll := !ds.isEmpty && ds.all fun d => d.exact
  let withinPalette :=
    (outs.all fun out => out.palette.subset invariants.outputPalette) && testsWithin
  let certified :=
    exactAll && deterministic && (withinPalette || !strictness.boundPalette)
  { task := t.name
    program := p
    diffs := ds
    exactAll := exactAll
    deterministic := deterministic
    withinPalette := withinPalette
    certified := certified
    approved := certified
    satisfied := satisfied
    score := Diff.total ds
    meanAccuracy := Diff.meanAccuracy ds
    cost := cost
    hints := Hint.ofDiffs ds }

/-- The verdict on a program. -/
def evaluate (reg : Registry) (strictness : Strictness) (p : Program) (t : Task) :
    Except Fault (Verdict S) := do
  let outs ← p.predictions reg t.examples
  let deterministic ←
    if outs.isEmpty then pure false
    else p.reproduces reg (max strictness.reruns 1) t.examples outs
  let within ← p.testsWithin reg strictness t
  let satisfied ← (Invariants.ofTask t).satisfied (t.examples.zip outs)
  let cost ← p.cost reg
  pure (p.judge strictness t outs deterministic within satisfied cost)

end Program

end GridRepair
