/-
# Running programs

A call resolves its literal arguments and applies a primitive of the registry; the steps of a
composition run from left to right, each on the grid the one before it gave; a literal is its
value.  Every step but the last must give a grid, and so must a program that is `run`.

The cost of a program is the sum of the costs of its calls, as long as no partial sum leaves
the range of costs.
-/
import GridRepair.Program
import GridRepair.Registry

namespace GridRepair

namespace Program

/-- The literals among arguments counted from an index; anything else is refused. -/
def literals (primitive : String) : Nat → List Program → Except Fault (List Value)
  | _, [] => .ok []
  | index, .literal v :: args => do
    let vs ← literals primitive (index + 1) args
    pure (v :: vs)
  | index, _ :: _ => .error (.notLiteral primitive index)

mutual

/-- The value of a program on a grid. -/
def eval (reg : Registry) : Program → Grid → Except Fault Value
  | .call name args, g => do
    let p ← reg.find name
    let values ← literals name 0 args
    p.apply g values
  | .compose steps, g => evalSteps reg steps g
  | .literal v, _ => .ok v

/-- The value of a list of steps on a grid: the value of the last step. -/
def evalSteps (reg : Registry) : List Program → Grid → Except Fault Value
  | [], _ => .error .emptyComposition
  | [p], g => eval reg p g
  | p :: ps, g => do
    match ← eval reg p g with
    | .grid g' => evalSteps reg ps g'
    | _ => .error (.noGrid p.render)

end

/-- The value of a program on a grid, which must be a grid. -/
def run (reg : Registry) (p : Program) (g : Grid) : Except Fault Grid := do
  match ← p.eval reg g with
  | .grid out => pure out
  | _ => .error (.noGrid p.render)

mutual

/-- The total cost of the primitives that a program calls. -/
def cost (reg : Registry) : Program → Except Fault Nat
  | .call name _ => (reg.find name).map Primitive.cost
  | .compose steps => costFrom reg 0 steps
  | .literal _ => .ok 0

/-- The total cost of steps, on top of what was spent before them. -/
def costFrom (reg : Registry) : Nat → List Program → Except Fault Nat
  | spent, [] => .ok spent
  | spent, p :: ps => do
    let c ← cost reg p
    if spent + c ≤ maxCost then costFrom reg (spent + c) ps else .error (.breach .cost)

end

end Program

end GridRepair
