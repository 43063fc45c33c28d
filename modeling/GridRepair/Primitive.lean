/-
# Primitives

A primitive is a named operation on a grid with a list of parameters and a cost.  Arguments
are resolved before it runs (`Primitive.resolve`): their number and kinds are checked, and
omitted trailing ones take their defaults.
-/
import GridRepair.Value
import GridRepair.Limits

namespace GridRepair

/-! ## Parameters -/

/-- What a parameter accepts. -/
inductive Param.Kind where
  /-- an integer; the bounds are those of the values a search tries -/
  | int (lo hi : Int)
  /-- a color -/
  | color
  /-- a constant grid -/
  | grid
deriving DecidableEq, Repr

namespace Param.Kind

/-- The value has the right kind. -/
def accepts : Param.Kind → Value → Bool
  | .int .., .int _ => true
  | .color, .int _ => true
  | .grid, .grid _ => true
  | _, _ => false

/-- The parameter takes an integer. -/
def isNumeric : Param.Kind → Bool
  | .grid => false
  | _ => true

/-- What a refused argument should have been. -/
def expected : Param.Kind → Expected
  | .int .. => .int
  | .color => .color
  | .grid => .grid

/-- The values near the current one that are worth a try, other than itself. -/
def nearby : Param.Kind → Int → List Int
  | .int lo hi, n => [n - 1, n + 1, n - 2, n + 2].filter fun v => decide (lo ≤ v ∧ v ≤ hi)
  | .color, n => ((List.range (maxColor + 1)).map Int.ofNat).filter fun v => decide (v ≠ n)
  | .grid, _ => []

end Param.Kind

/-- A parameter. -/
structure Param where
  name : String
  kind : Param.Kind
  /-- the integer an omitted argument stands for -/
  default? : Option Int
deriving DecidableEq, Repr

/-! ## Arguments -/

/-- The resolved arguments of a call. -/
structure Args where
  primitive : String
  values : List Value

namespace Args

/-- The integer argument at an index. -/
def int (a : Args) (index : Nat) : Except Fault Int :=
  match a.values[index]?.bind Value.int? with
  | some n => .ok n
  | none => .error (.argumentType a.primitive index .int)

/-- The color argument at an index. -/
def color (a : Args) (index : Nat) : Except Fault Color := do
  let n ← a.int index
  Grid.color? n

/-- The count at an index: an integer that is not negative. -/
def count (a : Args) (index : Nat) : Except Fault Nat := do
  let n ← a.int index
  if 0 ≤ n then pure n.toNat
  else .error (.invalidArgument a.primitive (.negative index n))

/-- The grid argument at an index. -/
def grid (a : Args) (index : Nat) : Except Fault Grid :=
  match a.values[index]?.bind Value.grid? with
  | some g => .ok g
  | none => .error (.argumentType a.primitive index .grid)

/-- An integer that is given is the integer argument. -/
theorem int_eq {a : Args} {index : Nat} {n : Int} (h : a.values[index]? = some (.int n)) :
    a.int index = .ok n := by
  have hint : a.values[index]?.bind Value.int? = some n := by rw [h]; rfl
  show (match a.values[index]?.bind Value.int? with
    | some n => Except.ok n
    | none => .error (Fault.argumentType a.primitive index .int)) = .ok n
  rw [hint]

/-- An integer that is not negative is a count. -/
theorem count_eq {a : Args} {index n : Nat} (h : a.values[index]? = some (.int n)) :
    a.count index = .ok n := by
  show (a.int index >>= fun m => if 0 ≤ m then pure m.toNat
    else .error (Fault.invalidArgument a.primitive (.negative index m))) = .ok n
  rw [int_eq h]
  rfl

/-- The number of a color is that color. -/
theorem color_eq {a : Args} {index : Nat} {c : Color} (hc : c ≤ maxColor)
    (h : a.values[index]? = some (.int c)) : a.color index = .ok c := by
  show (a.int index >>= Grid.color?) = .ok c
  rw [int_eq h]
  exact Grid.color?_of_le hc

end Args

/-! ## Primitives -/

/-- A named operation on grids. -/
structure Primitive where
  name : String
  cost : Nat
  params : List Param
  run : Grid → Args → Except Fault Value

namespace Primitive

/-- The number of parameters. -/
def arity (p : Primitive) : Nat := p.params.length

/-- The number of arguments that cannot be omitted: all up to the last parameter without
default. -/
def mandatory (p : Primitive) : Nat :=
  (p.params.reverse.dropWhile fun q => q.default?.isSome).length

/-- So many arguments can be given. -/
def takes (p : Primitive) (n : Nat) : Bool := p.mandatory ≤ n && n ≤ p.arity

/-- The fault of a wrong number of arguments. -/
def arityFault (p : Primitive) (given : Nat) : Fault :=
  .arity p.name p.mandatory p.arity given

/-- The first argument, counted from an index, that its parameter does not accept. -/
def kindFault? (name : String) : Nat → List Param → List Value → Option Fault
  | index, q :: qs, v :: vs =>
    if q.kind.accepts v then kindFault? name (index + 1) qs vs
    else some (.argumentType name index q.kind.expected)
  | _, _, _ => none

/-- The defaults of parameters that all have one. -/
def defaults? : List Param → Option (List Value)
  | [] => some []
  | q :: qs =>
    match q.default?, defaults? qs with
    | some n, some vs => some (.int n :: vs)
    | _, _ => none

/-- The given arguments, checked, followed by the defaults of the omitted ones. -/
def resolve (p : Primitive) (given : List Value) : Except Fault (List Value) :=
  if p.takes given.length then
    match kindFault? p.name 0 p.params given with
    | some fault => .error fault
    | none =>
      match defaults? (p.params.drop given.length) with
      | some rest => .ok (given ++ rest)
      | none => .error (p.arityFault given.length)
  else .error (p.arityFault given.length)

/-- Run the primitive on a grid with the given arguments. -/
def apply (p : Primitive) (g : Grid) (given : List Value) : Except Fault Value := do
  let values ← p.resolve given
  p.run g ⟨p.name, values⟩

end Primitive

end GridRepair
