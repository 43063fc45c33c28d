/-
# Repair

A proposed program is judged; if it is not certified, a search starts from it with the hints
of that judgement, and an improved program is judged again.  There is an outcome unless one of the
judgements fails, or the search ends in a breach.
-/
import GridRepair.Search

namespace GridRepair

/-- How strictly to judge and how far to search. -/
structure RepairConfig where
  strictness : Strictness
  effort : Effort
deriving DecidableEq, Repr

/-- The usual strictness and effort. -/
def RepairConfig.standard : RepairConfig := ⟨.standard, .standard⟩

/-- The result of a repair. -/
structure Outcome (S : Type) where
  /-- the verdict on the proposed program -/
  initial : Verdict S
  /-- the search, unless the proposed program was certified -/
  refinement? : Option (Refinement S)
  /-- the verdict on the best program -/
  verdict : Verdict S

/-- The best program of a repair. -/
def Outcome.program {S : Type} (o : Outcome S) : Program := o.verdict.program

/-- The best program is certified. -/
def Outcome.certified {S : Type} (o : Outcome S) : Bool := o.verdict.certified

variable {S : Type} [Scalar S]

/-- The search from a program with a verdict: it goes by the same score and takes the hints. -/
def searchFrom (reg : Registry) (effort : Effort) (p : Program) (t : Task) (v : Verdict S) :
    Except Fault (Refinement S) :=
  Search.refine reg (Program.score reg) effort p t v.hints

/-- Judge a program and, unless it is certified, search for a better one and judge that. -/
def repair (reg : Registry) (config : RepairConfig) (p : Program) (t : Task) :
    Except Fault (Outcome S) := do
  let initial : Verdict S ← p.evaluate reg config.strictness t
  if initial.certified then pure ⟨initial, none, initial⟩
  else
    let found ← searchFrom reg config.effort p t initial
    let verdict ←
      if found.improved then found.program.evaluate reg config.strictness t else pure initial
    pure ⟨initial, some found, verdict⟩

end GridRepair
