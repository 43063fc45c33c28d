/-
# Written forms of tasks and configurations

Pairs, tasks and configurations as JSON, and the texts a user writes by hand: a task text
holds pairs only, and each section of a configuration text may be left out.
-/
import GridRepair.Codec.Grid
import GridRepair.Json.Reader
import GridRepair.Repair

namespace GridRepair

/-! ## Tasks -/

/-- The written form of a pair; an unknown output is not written. -/
def Pair.toJson (p : Pair) : Json :=
  match p.output? with
  | some out => .object [("input", p.input.toJson), ("output", out.toJson)]
  | none => .object [("input", p.input.toJson)]

/-- The pair with the given written form. -/
def Pair.ofJson? (j : Json) : Option Pair := do
  let r ← Json.record? ["input", "output"] j
  let input ← r.required? "input" Grid.ofJson?
  let output? ← r.orElse? "output" (Json.option? Grid.ofJson?) none
  pure ⟨input, output?⟩

/-- The written form of a task. -/
def Task.toJson (t : Task) : Json :=
  .object [("task_id", .text t.name), ("train", .list Pair.toJson t.train),
    ("test", .list Pair.toJson t.test)]

/-- The task with the given written form; training pairs may lack their outputs. -/
def Task.ofJson? (j : Json) : Option Task := do
  let r ← Json.record? ["task_id", "train", "test"] j
  let name ← r.required? "task_id" Json.text?
  let train ← r.required? "train" (Json.list? Pair.ofJson?)
  let test ← r.orElse? "test" (Json.list? Pair.ofJson?) []
  pure ⟨name, train, test⟩

/-- The training and test pairs of a task text. -/
def Task.pairsOfJson? (j : Json) : Option (List Pair × List Pair) := do
  let r ← Json.record? ["train", "test"] j
  let train ← r.required? "train" (Json.list? Pair.ofJson?)
  let test ← r.orElse? "test" (Json.list? Pair.ofJson?) []
  pure (train, test)

/-- Load a named task from its text; every training pair needs an output. -/
def Task.load (name text : String) : Except LoadFault Task :=
  match (Json.ofText? text).bind pairsOfJson? with
  | some (train, test) => Task.checked ⟨name, train, test⟩
  | none => .error (.unreadableTask name)

/-! ## Configurations -/

/-- The written form of a strictness. -/
def Strictness.toJson (c : Strictness) : Json :=
  .object [("determinism_runs", .nat c.reruns),
    ("enforce_palette", .bool c.boundPalette),
    ("check_test_inputs", .bool c.runTests)]

/-- The strictness with the given written form. -/
def Strictness.ofJson? (j : Json) : Option Strictness := do
  let r ← Json.record? ["determinism_runs", "enforce_palette", "check_test_inputs"] j
  let runs ← r.required? "determinism_runs" Json.nat?
  let palette ← r.required? "enforce_palette" Json.bool?
  let tests ← r.required? "check_test_inputs" Json.bool?
  pure ⟨runs, palette, tests⟩

/-- The written form of an effort. -/
def Effort.toJson (c : Effort) : Json :=
  .object [("max_iterations", .nat c.maxRounds), ("parallel", .bool c.parallel),
    ("use_hints", .bool c.useHints), ("max_candidates_per_round", .nat c.maxCandidates)]

/-- The effort with the given written form. -/
def Effort.ofJson? (j : Json) : Option Effort := do
  let r ← Json.record?
    ["max_iterations", "parallel", "use_hints", "max_candidates_per_round"] j
  let rounds ← r.required? "max_iterations" Json.nat?
  let parallel ← r.required? "parallel" Json.bool?
  let hints ← r.required? "use_hints" Json.bool?
  let candidates ← r.required? "max_candidates_per_round" Json.nat?
  pure ⟨rounds, parallel, hints, candidates⟩

/-- The written form of a configuration. -/
def RepairConfig.toJson (c : RepairConfig) : Json :=
  .object [("critic", c.strictness.toJson), ("refinement", c.effort.toJson)]

/-- The configuration with the given written form; both sections have to be there. -/
def RepairConfig.ofJson? (j : Json) : Option RepairConfig := do
  let r ← Json.record? ["critic", "refinement"] j
  let strictness ← r.required? "critic" Strictness.ofJson?
  let effort ← r.required? "refinement" Effort.ofJson?
  pure ⟨strictness, effort⟩

/-- The configuration of a text, whose sections may be left out. -/
def RepairConfig.sectionsOfJson? (j : Json) : Option RepairConfig := do
  let r ← Json.record? ["critic", "refinement"] j
  let strictness? ← r.orElse? "critic" (Json.option? Strictness.ofJson?) none
  let effort? ← r.orElse? "refinement" (Json.option? Effort.ofJson?) none
  pure ⟨strictness?.getD .standard, effort?.getD .standard⟩

/-- Load a configuration from its text. -/
def RepairConfig.load (text : String) : Except LoadFault RepairConfig :=
  match (Json.ofText? text).bind sectionsOfJson? with
  | some config => .ok config
  | none => .error .unreadableConfig

end GridRepair
