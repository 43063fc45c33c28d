/-
# Hill climbing

The search for a better program: in every round all candidates of the current program that
were not scored before are scored, and the best one is taken if it beats the current score by
more than the tolerance.  Among equal scores the cheaper program wins, then the earlier
candidate.  Candidates without score or cost are discarded; a breach in one of them is no answer of
a candidate, and ends the whole search without a result.

The score comes from a `Scorer`, which is not otherwise known here.
-/
import GridRepair.Proposal
import GridRepair.Verdict

namespace GridRepair

/-- A score for a program on a task. -/
abbrev Scorer (S : Type) := Program → Task → Except Fault S

/-- How far and how wide to search. -/
structure Effort where
  maxRounds : Nat
  /-- score candidates side by side, with the same result -/
  parallel : Bool
  /-- let hints suggest insertions and order the families -/
  useHints : Bool
  /-- the number of candidates that are scored in one round -/
  maxCandidates : Nat
deriving DecidableEq, Repr

/-- The usual effort. -/
def Effort.standard : Effort := ⟨10, true, true, 2000⟩

/-- The result of a search. -/
structure Refinement (S : Type) where
  /-- the search took place: the program it starts from has a score and a cost -/
  success : Bool
  /-- a better program was found -/
  improved : Bool
  /-- the program the search starts from -/
  start : Program
  /-- the better program, or else the first one -/
  program : Program
  startScore : S
  score : S
  /-- the edits that lead from the first program to the better one -/
  edits : List Edit
  rounds : Nat
  evaluated : Nat
  discarded : Nat
  /-- why the search did not take place -/
  error? : Option String

namespace Search

/-! ## What is tried -/

/-- The list without later copies of its members. -/
def distinct (seen : List Program) : List Program → List Program
  | [] => []
  | p :: ps => if p ∈ seen then distinct seen ps else p :: distinct (p :: seen) ps

/-- The steps offered for insertion: suggestions of the hints, then a scaling by the ratio of
the task, then the library; each once, and only registered primitives. -/
def insertions (reg : Registry) (effort : Effort) (t : Task) (hints : List Hint) :
    List Program :=
  let suggested := if effort.useHints then hints.flatMap Hint.steps else []
  let scaling :=
    match (Invariants.ofTask t).ratio?.bind Ratio.factor? with
    | some k => if 2 ≤ k then [Hint.scaleStep k] else []
    | none => []
  let known := (suggested ++ scaling ++ Proposal.library).filter fun p =>
    reg.contains (p.name?.getD "")
  distinct [] known

/-- The list with one family moved to the front. -/
def first (family : Edit.Family) (order : List Edit.Family) : List Edit.Family :=
  family :: order.filter fun f => f ≠ family

/-- The order of the families: those the hints point at come first. -/
def order (effort : Effort) (hints : List Hint) : List Edit.Family :=
  if effort.useHints then
    let tweaks := hints.any fun h => h = .mostlySurplus || h = .mostlyLacking
    let inserts := hints.any fun h => !h.steps.isEmpty
    let base := Edit.Family.all
    let base := if tweaks then first .tweak base else base
    if inserts then first .insert base else base
  else Edit.Family.all

/-- The candidates whose programs are not in the list, each program once. -/
def fresh (seen : List Program) : List Candidate → List Candidate
  | [] => []
  | c :: cs =>
    if c.program ∈ seen then fresh seen cs else c :: fresh (c.program :: seen) cs

variable {S : Type} [Scalar S]

/-! ## Choosing among candidates -/

/-- What a round knows of a candidate: its place in the round, its score and its cost. -/
structure Scored (S : Type) where
  index : Nat
  score : S
  cost : Nat

/-- The first one is better: its score is higher, or else its cost is lower, or else it stands
earlier. -/
def better (a b : Scored S) : Bool :=
  if Scalar.exceeds a.score b.score then true
  else if Scalar.exceeds b.score a.score then false
  else if a.cost = b.cost then a.index < b.index
  else a.cost < b.cost

/-- The better one of the best so far and the next. -/
def choose (best next : Scored S) : Scored S := if better next best then next else best

/-- The best one of a list, found by comparing one after the other. -/
def best? : List (Scored S) → Option (Scored S)
  | [] => none
  | s :: ss => some (ss.foldl choose s)

/-- The score and the cost of a program, noted under a place. -/
def assess (reg : Registry) (scorer : Scorer S) (t : Task) (index : Nat) (p : Program) :
    Except Fault (Scored S) := do
  let score ← scorer p t
  let cost ← p.cost reg
  pure ⟨index, score, cost⟩

/-- The candidates that have a score and a cost, with their places counted from an index, unless
there is a breach. -/
def assessFrom (reg : Registry) (scorer : Scorer S) (t : Task) :
    Nat → List Candidate → Except Fault (List (Scored S))
  | _, [] => .ok []
  | index, c :: cs =>
    match assess reg scorer t index c.program with
    | .ok s => do
      let ss ← assessFrom reg scorer t (index + 1) cs
      pure (s :: ss)
    | .error (.breach cause) => .error (.breach cause)
    | .error _ => assessFrom reg scorer t (index + 1) cs

/-! ## Rounds -/

/-- Where a search stands between two rounds. -/
structure Position (S : Type) where
  current : Program
  score : S
  edits : List Edit
  /-- the programs that were scored -/
  visited : List Program
  rounds : Nat
  evaluated : Nat
  discarded : Nat

/-- The fixed part of a search. -/
structure Setting (S : Type) where
  registry : Registry
  scorer : Scorer S
  task : Task
  order : List Edit.Family
  steps : List Program
  maxCandidates : Nat

/-- The candidates of the next round. -/
def batch (s : Setting S) (x : Position S) : List Candidate :=
  (fresh x.visited (Proposal.all s.registry s.order s.steps x.current)).take s.maxCandidates

/-- The candidates of a round that have a score and a cost. -/
def scored (s : Setting S) (cs : List Candidate) : Except Fault (List (Scored S)) :=
  assessFrom s.registry s.scorer s.task 0 cs

/-- The position after scoring a round without a move. -/
def record (x : Position S) (cs : List Candidate) (ss : List (Scored S)) : Position S :=
  { x with
    visited := cs.map Candidate.program ++ x.visited
    rounds := x.rounds + 1
    evaluated := x.evaluated + ss.length
    discarded := x.discarded + (cs.length - ss.length) }

/-- The position after moving to a candidate of the given score. -/
def move (x : Position S) (c : Candidate) (score : S) : Position S :=
  { x with
    current := c.program
    score := score
    edits := x.edits ++ [c.edit] }

/-- The best candidate of a round with its score, if it beats the current score by more than the
tolerance. -/
def winner? (x : Position S) (cs : List Candidate) (ss : List (Scored S)) :
    Option (Candidate × S) :=
  match best? ss with
  | none => none
  | some w =>
    if x.score + Scalar.tolerance < w.score then cs[w.index]?.map fun c => (c, w.score)
    else none

/-- One round: the position after it, and whether the search moved. -/
def round (s : Setting S) (x : Position S) : Except Fault (Position S × Bool) := do
  let cs := batch s x
  let ss ← scored s cs
  match winner? x cs ss with
  | some (c, score) => pure (move (record x cs ss) c score, true)
  | none => pure (record x cs ss, false)

/-- Climb for at most so many rounds, as long as rounds move and the score is below the best
possible one. -/
def climb (s : Setting S) : Nat → Position S → Except Fault (Position S)
  | 0, x => .ok x
  | n + 1, x =>
    if x.score < Scalar.maxScore - Scalar.tolerance then do
      let (x', moved) ← round s x
      if moved then climb s n x' else pure x'
    else .ok x

/-! ## The search -/

/-- The result when the first program has no score or no cost. -/
def failed (p : Program) (fault : Fault) : Refinement S where
  success := false
  improved := false
  start := p
  program := p
  startScore := 0.0
  score := 0.0
  edits := []
  rounds := 0
  evaluated := 0
  discarded := 0
  error? := some fault.message

/-- The position in which a search starts. -/
def start (p : Program) (score : S) : Position S := ⟨p, score, [], [p], 0, 0, 0⟩

/-- The fixed part of a search with the given effort and hints. -/
def setting (reg : Registry) (scorer : Scorer S) (effort : Effort) (t : Task)
    (hints : List Hint) : Setting S where
  registry := reg
  scorer := scorer
  task := t
  order := order effort hints
  steps := insertions reg effort t hints
  maxCandidates := effort.maxCandidates

/-- The result of a search that started from a program of the given score and ended in a
position. -/
def conclude (p : Program) (score : S) (x : Position S) : Refinement S :=
  let improved := decide (score + Scalar.tolerance < x.score)
  { success := true
    improved := improved
    start := p
    program := if improved then x.current else p
    startScore := score
    score := x.score
    edits := x.edits
    rounds := x.rounds
    evaluated := x.evaluated
    discarded := x.discarded
    error? := none }

/-- Search for a better program, guided by hints. -/
def refine (reg : Registry) (scorer : Scorer S) (effort : Effort) (p : Program) (t : Task)
    (hints : List Hint) : Except Fault (Refinement S) :=
  match assess reg scorer t 0 p with
  | .ok first => do
    let x ← climb (setting reg scorer effort t hints) effort.maxRounds (start p first.score)
    pure (conclude p first.score x)
  | .error (.breach cause) => .error (.breach cause)
  | .error fault => .ok (failed p fault)

end Search

end GridRepair
