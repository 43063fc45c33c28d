/-
# Written forms of programs and edits

Programs, paths, parameters and edits as JSON.  A composition without steps is not read at any
depth, and neither is a grid that is not valid, so what is read is well formed throughout.
-/
import GridRepair.Codec.Grid
import GridRepair.Edit
import GridRepair.Primitive

namespace GridRepair

/-! ## Programs -/

namespace Program

mutual

/-- The written form of a program. -/
def toJson : Program → Json
  | .call name args =>
    .variant "Primitive" (.object [("name", .text name), ("args", .array (toJsonAll args))])
  | .compose steps => .variant "Compose" (.array (toJsonAll steps))
  | .literal v => .variant "Literal" v.toJson

/-- The written forms of a list of programs. -/
def toJsonAll : List Program → List Json
  | [] => []
  | p :: ps => toJson p :: toJsonAll ps

end

/-- The program with the given written form, nested at most so deeply. -/
def ofJsonWithin? (source : Json.Source) : Nat → Json → Option Program
  | 0, _ => none
  | fuel + 1, j => do
    match ← Json.variant? j with
    | ("Primitive", some c) =>
      let r ← Json.content? source ["name", "args"] c
      let name ← r.required? "name" Json.text?
      let args ← r.required? "args" (Json.list? (ofJsonWithin? source fuel))
      pure (.call name args)
    | ("Compose", some c) =>
      let steps ← Json.list? (ofJsonWithin? source fuel) c
      if steps.isEmpty then none else pure (.compose steps)
    | ("Literal", some c) => (Value.ofJson? c).map .literal
    | _ => none

/-- The program with the given written form. -/
def ofJson? (source : Json.Source) (j : Json) : Option Program := ofJsonWithin? source j.depth j

end Program

/-- The written form of a path. -/
def Path.toJson (path : Path) : Json := .list Json.nat path

/-- The path with the given written form. -/
def Path.ofJson? (j : Json) : Option Path := Json.list? Json.nat? j

/-! ## Parameters -/

/-- The written form of a kind of parameter. -/
def Param.Kind.toJson : Param.Kind → Json
  | .int lo hi => .variant "Int" (.object [("lo", .int lo), ("hi", .int hi)])
  | .color => .text "Color"
  | .grid => .text "Grid"

/-- The kind of parameter with the given written form. -/
def Param.Kind.ofJson? (source : Json.Source) (j : Json) : Option Param.Kind := do
  match ← Json.variant? j with
  | ("Int", some c) =>
    let r ← Json.content? source ["lo", "hi"] c
    let lo ← r.required? "lo" Json.int?
    let hi ← r.required? "hi" Json.int?
    pure (.int lo hi)
  | ("Color", c?) => Json.bare? .color c?
  | ("Grid", c?) => Json.bare? .grid c?
  | _ => none

/-- The written form of a parameter. -/
def Param.toJson (q : Param) : Json :=
  .object [("name", .text q.name), ("kind", q.kind.toJson),
    ("default", .option Json.int q.default?)]

/-- The parameter with the given written form. -/
def Param.ofJson? (source : Json.Source) (j : Json) : Option Param := do
  let r ← Json.record? ["name", "kind", "default"] j
  let name ← r.required? "name" Json.text?
  let kind ← r.required? "kind" (Param.Kind.ofJson? source)
  let default? ← r.optional? "default" Json.int?
  pure ⟨name, kind, default?⟩

/-! ## Edits -/

/-- The written form of a family. -/
def Edit.Family.toJson : Edit.Family → Json
  | .swap => .text "Swap"
  | .tweak => .text "Tweak"
  | .insert => .text "Insert"
  | .remove => .text "Remove"
  | .reorder => .text "Reorder"

/-- The family with the given written form. -/
def Edit.Family.ofJson? (j : Json) : Option Edit.Family := do
  match ← Json.variant? j with
  | ("Swap", c?) => Json.bare? .swap c?
  | ("Tweak", c?) => Json.bare? .tweak c?
  | ("Insert", c?) => Json.bare? .insert c?
  | ("Remove", c?) => Json.bare? .remove c?
  | ("Reorder", c?) => Json.bare? .reorder c?
  | _ => none

/-- The written form of an edit. -/
def Edit.toJson : Edit → Json
  | .swap location name replacement =>
    .variant "SwapPrimitive" (.object [("location", location.toJson),
      ("original", .text name), ("replacement", .text replacement)])
  | .tweak location index old? new =>
    .variant "TweakArg" (.object [("location", location.toJson), ("arg_index", .nat index),
      ("old_value", .option Json.int old?), ("new_value", .int new)])
  | .insert location index step =>
    .variant "InsertPrimitive" (.object [("location", location.toJson), ("index", .nat index),
      ("primitive", step.toJson)])
  | .remove location => .variant "RemovePrimitive" (.object [("location", location.toJson)])
  | .reorder location => .variant "SwapOrder" (.object [("location", location.toJson)])

/-- The edit with the given written form. -/
def Edit.ofJson? (source : Json.Source) (j : Json) : Option Edit := do
  match ← Json.variant? j with
  | ("SwapPrimitive", some c) =>
    let r ← Json.content? source ["location", "original", "replacement"] c
    let location ← r.required? "location" Path.ofJson?
    let name ← r.required? "original" Json.text?
    let replacement ← r.required? "replacement" Json.text?
    pure (.swap location name replacement)
  | ("TweakArg", some c) =>
    let r ← Json.content? source ["location", "arg_index", "old_value", "new_value"] c
    let location ← r.required? "location" Path.ofJson?
    let index ← r.required? "arg_index" Json.nat?
    let old? ← r.optional? "old_value" Json.int?
    let new ← r.required? "new_value" Json.int?
    pure (.tweak location index old? new)
  | ("InsertPrimitive", some c) =>
    let r ← Json.content? source ["location", "index", "primitive"] c
    let location ← r.required? "location" Path.ofJson?
    let index ← r.required? "index" Json.nat?
    let step ← r.required? "primitive" (Program.ofJson? source)
    pure (.insert location index step)
  | ("RemovePrimitive", some c) =>
    let r ← Json.content? source ["location"] c
    let location ← r.required? "location" Path.ofJson?
    pure (.remove location)
  | ("SwapOrder", some c) =>
    let r ← Json.content? source ["location"] c
    let location ← r.required? "location" Path.ofJson?
    pure (.reorder location)
  | _ => none

end GridRepair
