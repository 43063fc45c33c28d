/-
# Written forms of verdicts

Hints, invariants, comparisons, verdicts and the results of searches as JSON.  The form of the
numbers of scores is left to the caller, because readers and writers may differ in it.
-/
import GridRepair.Codec.Program
import GridRepair.Repair

namespace GridRepair

/-! ## Hints -/

/-- The written form of a hint. -/
def Hint.toJson : Hint → Json
  | .recolor source target =>
    .variant "MissingRecolor" (.object [("from", .nat source), ("to", .nat target)])
  | .scaled factor => .variant "ScaleBy" (.nat factor)
  | .shrink => .text "ShrinkToContent"
  | .reshape => .text "DimensionMismatch"
  | .mostlySurplus => .text "ExtraPixels"
  | .mostlyLacking => .text "MissingPixels"
  | .addsColors colors => .variant "UnexpectedColors" (Palette.colorsToJson colors)
  | .someSolved solved total =>
    .variant "PartialSuccess" (.object [("solved", .nat solved), ("total", .nat total)])

/-- The hint with the given written form. -/
def Hint.ofJson? (source : Json.Source) (j : Json) : Option Hint := do
  match ← Json.variant? j with
  | ("MissingRecolor", some c) =>
    let r ← Json.content? source ["from", "to"] c
    let color ← r.required? "from" Json.colorCode?
    let target ← r.required? "to" Json.colorCode?
    pure (.recolor color target)
  | ("ScaleBy", some c) => (Json.nat? c).map .scaled
  | ("ShrinkToContent", c?) => Json.bare? .shrink c?
  | ("DimensionMismatch", c?) => Json.bare? .reshape c?
  | ("ExtraPixels", c?) => Json.bare? .mostlySurplus c?
  | ("MissingPixels", c?) => Json.bare? .mostlyLacking c?
  | ("UnexpectedColors", some c) => (Palette.colorsOfJson? c).map .addsColors
  | ("PartialSuccess", some c) =>
    let r ← Json.content? source ["solved", "total"] c
    let solved ← r.required? "solved" Json.nat?
    let total ← r.required? "total" Json.nat?
    pure (.someSolved solved total)
  | _ => none

/-! ## Invariants -/

/-- The written form of an invariant. -/
def Invariant.toJson (i : Invariant) : Json := .text i.name

/-- The invariant with the given written form. -/
def Invariant.ofJson? (j : Json) : Option Invariant := do
  let (name, c?) ← Json.variant? j
  let i ← Invariant.all.find? fun i => i.name == name
  Json.bare? i c?

/-- The written form of a fraction. -/
def Fraction.toJson (q : Fraction) : Json := .array [.nat q.num, .nat q.den]

/-- The fraction with the given written form. -/
def Fraction.ofJson? (j : Json) : Option Fraction :=
  (Json.pair? Json.nat? Json.nat? j).map fun (num, den) => ⟨num, den⟩

/-- The written form of a ratio. -/
def Ratio.toJson (q : Ratio) : Json :=
  .object [("height", q.height.toJson), ("width", q.width.toJson)]

/-- The ratio with the given written form. -/
def Ratio.ofJson? (j : Json) : Option Ratio := do
  let r ← Json.record? ["height", "width"] j
  let height ← r.required? "height" Fraction.ofJson?
  let width ← r.required? "width" Fraction.ofJson?
  pure ⟨height, width⟩

/-- The written form of the invariants of a task. -/
def Invariants.toJson (s : Invariants) : Json :=
  .object [("fixed_output_dims", .option Shape.toJson s.fixedShape?),
    ("dimension_ratio", .option Ratio.toJson s.ratio?),
    ("input_palette", s.inputPalette.toJson),
    ("output_palette", s.outputPalette.toJson),
    ("palette_preserved", .bool s.palettePreserved)]

/-- The invariants with the given written form. -/
def Invariants.ofJson? (j : Json) : Option Invariants := do
  let r ← Json.record? ["fixed_output_dims", "dimension_ratio", "input_palette",
    "output_palette", "palette_preserved"] j
  let shape? ← r.optional? "fixed_output_dims" Shape.ofJson?
  let ratio? ← r.optional? "dimension_ratio" Ratio.ofJson?
  let inputs ← r.required? "input_palette" Palette.ofJson?
  let outputs ← r.required? "output_palette" Palette.ofJson?
  let preserved ← r.required? "palette_preserved" Json.bool?
  pure ⟨shape?, ratio?, inputs, outputs, preserved⟩

/-! ## Comparisons -/

/-- The written form of a kind of error. -/
def Mismatch.toJson : Mismatch → Json
  | .otherColor => .text "wrong_color"
  | .surplus => .text "extra_pixel"
  | .lacking => .text "missing_pixel"

/-- The kind of error with the given written form. -/
def Mismatch.ofJson? (j : Json) : Option Mismatch := do
  match ← Json.variant? j with
  | ("wrong_color", c?) => Json.bare? .otherColor c?
  | ("extra_pixel", c?) => Json.bare? .surplus c?
  | ("missing_pixel", c?) => Json.bare? .lacking c?
  | _ => none

/-- The written form of a wrong cell. -/
def WrongCell.toJson (d : WrongCell) : Json :=
  .object [("row", .nat d.cell.row), ("col", .nat d.cell.col),
    ("predicted", .nat d.predicted), ("expected", .nat d.expected), ("kind", d.kind.toJson)]

/-- The wrong cell with the given written form. -/
def WrongCell.ofJson? (j : Json) : Option WrongCell := do
  let r ← Json.record? ["row", "col", "predicted", "expected", "kind"] j
  let row ← r.required? "row" Json.nat?
  let col ← r.required? "col" Json.nat?
  let predicted ← r.required? "predicted" Json.colorCode?
  let expected ← r.required? "expected" Json.colorCode?
  let kind ← r.required? "kind" Mismatch.ofJson?
  pure ⟨⟨row, col⟩, predicted, expected, kind⟩

variable {S : Type}

/-- The written form of a comparison. -/
def Diff.toJson (number : S → Json) (d : Diff S) : Json :=
  .object [("predicted_shape", d.predictedShape.toJson),
    ("expected_shape", d.expectedShape.toJson),
    ("dimension_match", .bool d.sameShape),
    ("exact_match", .bool d.exact),
    ("pixel_accuracy", number d.accuracy),
    ("num_errors", .nat d.errors),
    ("severity", number d.severity),
    ("cell_diffs", .list WrongCell.toJson d.cells),
    ("extra_colors", d.extraColors.toJson),
    ("missing_colors", d.missingColors.toJson)]

/-- The comparison with the given written form. -/
def Diff.ofJson? (number? : Json → Option S) (j : Json) : Option (Diff S) := do
  let r ← Json.record? ["predicted_shape", "expected_shape", "dimension_match", "exact_match",
    "pixel_accuracy", "num_errors", "severity", "cell_diffs", "extra_colors",
    "missing_colors"] j
  let predictedShape ← r.required? "predicted_shape" Shape.ofJson?
  let expectedShape ← r.required? "expected_shape" Shape.ofJson?
  let sameShape ← r.required? "dimension_match" Json.bool?
  let exact ← r.required? "exact_match" Json.bool?
  let accuracy ← r.required? "pixel_accuracy" number?
  let errors ← r.required? "num_errors" Json.nat?
  let severity ← r.required? "severity" number?
  let cells ← r.required? "cell_diffs" (Json.list? WrongCell.ofJson?)
  let extraColors ← r.required? "extra_colors" Palette.ofJson?
  let missingColors ← r.required? "missing_colors" Palette.ofJson?
  pure ⟨predictedShape, expectedShape, sameShape, exact, accuracy, errors, severity, cells,
    extraColors, missingColors⟩

/-! ## Verdicts and searches -/

/-- The written fields of a verdict. -/
def Verdict.fields (number : S → Json) (v : Verdict S) : List (String × Json) :=
  [("task_id", .text v.task),
    ("program", v.program.toJson),
    ("diffs", .list (Diff.toJson number) v.diffs),
    ("exact_match_all", .bool v.exactAll),
    ("deterministic", .bool v.deterministic),
    ("palette_consistent", .bool v.withinPalette),
    ("is_certified", .bool v.certified),
    ("approved", .bool v.approved),
    ("invariants_satisfied", .list Invariant.toJson v.satisfied),
    ("score", number v.score),
    ("mean_pixel_accuracy", number v.meanAccuracy),
    ("program_cost", .nat v.cost),
    ("hints", .list Hint.toJson v.hints)]

/-- The written form of a verdict. -/
def Verdict.toJson (number : S → Json) (v : Verdict S) : Json := .object (v.fields number)

/-- The verdict with the given written form. -/
def Verdict.ofJson? (source : Json.Source) (number? : Json → Option S) (j : Json) :
    Option (Verdict S) := do
  let r ← Json.record? ["task_id", "program", "diffs", "exact_match_all", "deterministic",
    "palette_consistent", "is_certified", "approved", "invariants_satisfied", "score",
    "mean_pixel_accuracy", "program_cost", "hints"] j
  let task ← r.required? "task_id" Json.text?
  let program ← r.required? "program" (Program.ofJson? source)
  let diffs ← r.required? "diffs" (Json.list? (Diff.ofJson? number?))
  let exactAll ← r.required? "exact_match_all" Json.bool?
  let deterministic ← r.required? "deterministic" Json.bool?
  let withinPalette ← r.required? "palette_consistent" Json.bool?
  let certified ← r.required? "is_certified" Json.bool?
  let approved ← r.required? "approved" Json.bool?
  let satisfied ← r.required? "invariants_satisfied" (Json.list? Invariant.ofJson?)
  let score ← r.required? "score" number?
  let meanAccuracy ← r.required? "mean_pixel_accuracy" number?
  let cost ← r.required? "program_cost" Json.cost?
  let hints ← r.required? "hints" (Json.list? (Hint.ofJson? source))
  pure ⟨task, program, diffs, exactAll, deterministic, withinPalette, certified, approved,
    satisfied, score, meanAccuracy, cost, hints⟩

/-- The written fields of a search result. -/
def Refinement.fields (number : S → Json) (x : Refinement S) : List (String × Json) :=
  [("success", .bool x.success),
    ("improved", .bool x.improved),
    ("original_program", x.start.toJson),
    ("new_program", x.program.toJson),
    ("original_score", number x.startScore),
    ("new_score", number x.score),
    ("edits_applied", .list Edit.toJson x.edits),
    ("iterations", .nat x.rounds),
    ("candidates_evaluated", .nat x.evaluated),
    ("candidates_discarded", .nat x.discarded),
    ("error", .option Json.text x.error?)]

/-- The written form of a search result. -/
def Refinement.toJson (number : S → Json) (x : Refinement S) : Json :=
  .object (x.fields number)

/-- The search result with the given written form. -/
def Refinement.ofJson? (source : Json.Source) (number? : Json → Option S) (j : Json) :
    Option (Refinement S) := do
  let r ← Json.record? ["success", "improved", "original_program", "new_program",
    "original_score", "new_score", "edits_applied", "iterations", "candidates_evaluated",
    "candidates_discarded", "error"] j
  let success ← r.required? "success" Json.bool?
  let improved ← r.required? "improved" Json.bool?
  let start ← r.required? "original_program" (Program.ofJson? source)
  let program ← r.required? "new_program" (Program.ofJson? source)
  let startScore ← r.required? "original_score" number?
  let score ← r.required? "new_score" number?
  let edits ← r.required? "edits_applied" (Json.list? (Edit.ofJson? source))
  let rounds ← r.required? "iterations" Json.nat?
  let evaluated ← r.required? "candidates_evaluated" Json.nat?
  let discarded ← r.required? "candidates_discarded" Json.nat?
  let error? ← r.optional? "error" Json.text?
  pure ⟨success, improved, start, program, startScore, score, edits, rounds, evaluated,
    discarded, error?⟩

end GridRepair
