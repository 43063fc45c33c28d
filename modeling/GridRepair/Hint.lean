/-
# Hints

What the failing examples of a program have in common, read off their comparisons, and the
steps each hint suggests.  Hints guide a search; they decide nothing.
-/
import GridRepair.Diff
import GridRepair.Program
import GridRepair.Name
import GridRepair.Limits

namespace GridRepair

/-- A remark about all failing examples. -/
inductive Hint where
  /-- wrong cells of one color all should have had another one -/
  | recolor (source target : Color)
  /-- expected grids are this many times as large -/
  | scaled (factor : Nat)
  /-- expected grids are smaller -/
  | shrink
  /-- shapes are wrong without a known relation -/
  | reshape
  /-- most errors are content where background is expected -/
  | mostlySurplus
  /-- most errors are background where content is expected -/
  | mostlyLacking
  /-- colors that every failing prediction adds -/
  | addsColors (colors : List Color)
  /-- some examples are solved -/
  | someSolved (solved total : Nat)
deriving DecidableEq, Repr

namespace Hint

/-- The step that replaces one color by another. -/
def recolorStep (source target : Color) : Program :=
  .apply "recolor" [.int (Int.ofNat source), .int (Int.ofNat target)]

/-- The step that scales by a factor. -/
def scaleStep (factor : Nat) : Program := .apply "scale" [.int (wrapCount factor)]

/-- The steps a hint suggests. -/
def steps : Hint → List Program
  | .recolor source target => [recolorStep source target]
  | .scaled factor => [scaleStep factor]
  | .shrink => [.apply "crop_to_content" [], .apply "crop_largest_object" []]
  | .reshape => [.apply "transpose" [], .apply "crop_to_content" []]
  | .addsColors colors => colors.map fun c => recolorStep c background
  | .mostlySurplus => []
  | .mostlyLacking => []
  | .someSolved .. => []

/-- The names of the primitives a hint suggests, in order. -/
def primitives (h : Hint) : List String := orderedNames (h.steps.filterMap Program.name?)

/-- A hint in words. -/
def render : Hint → String
  | .recolor source target => s!"uniform color error {source} -> {target}: try recolor"
  | .scaled factor => s!"outputs are {factor}x larger: try scale({factor})"
  | .shrink => "outputs are smaller: try cropping"
  | .reshape => "output dimensions differ"
  | .mostlySurplus => "mostly extra pixels"
  | .mostlyLacking => "mostly missing pixels"
  | .addsColors colors => "unexpected colors " ++ Value.renderColors colors
  | .someSolved solved total => s!"{solved}/{total} pairs already exact"

/-! ## Reading hints off comparisons -/

variable {S : Type}

/-- The factor, at least two, by which the expected shape exceeds the predicted one. -/
def factor? (d : Diff S) : Option Nat :=
  let p := d.predictedShape
  let e := d.expectedShape
  let k := e.height / p.height
  if e.height % p.height = 0 ∧ e.width % p.width = 0 ∧ k = e.width / p.width ∧ 2 ≤ k then some k
  else none

/-- The factor of all comparisons, if it is one and the same. -/
def uniformFactor? : List (Diff S) → Option Nat
  | [] => none
  | d :: ds =>
    match factor? d with
    | some k => if ds.all fun e => factor? e = some k then some k else none
    | none => none

/-- A list of colors and their replacements, by ascending color, with one more replacement;
nothing when the color has another replacement already. -/
def note (source target : Color) : List (Color × Color) → Option (List (Color × Color))
  | [] => some [(source, target)]
  | (a, b) :: rest =>
    if source < a then some ((source, target) :: (a, b) :: rest)
    else if source = a then (if target = b then some ((a, b) :: rest) else none)
    else (note source target rest).map ((a, b) :: ·)

/-- The replacements that explain all wrong cells, if all of them are wrong colors and each
color has one replacement. -/
def replacements? : List WrongCell → List (Color × Color) → Option (List (Color × Color))
  | [], known => some known
  | c :: cs, known =>
    if c.kind = .otherColor then (note c.predicted c.expected known).bind (replacements? cs)
    else none

/-- The remark on shapes when no failing example has the right one. -/
def ofShapes (failing : List (Diff S)) : Hint :=
  match uniformFactor? failing with
  | some k => .scaled k
  | none =>
    if failing.all fun d => decide (d.expectedShape.height ≤ d.predictedShape.height) &&
        decide (d.expectedShape.width ≤ d.predictedShape.width) then .shrink
    else .reshape

/-- The remarks on cells when every failing example has the right shape. -/
def ofCells (failing : List (Diff S)) : List Hint :=
  match replacements? (failing.flatMap Diff.cells) [] with
  | some (first :: rest) => (first :: rest).map fun (a, b) => .recolor a b
  | _ =>
    let count (kind : Mismatch) := (failing.flatMap Diff.cells).countP fun c => c.kind = kind
    let extra := count .surplus
    let missing := count .lacking
    let wrong := count .otherColor
    if missing + wrong < extra then [.mostlySurplus]
    else if extra + wrong < missing then [.mostlyLacking]
    else []

/-- The colors, other than background, that every failing prediction adds. -/
def addedByAll : List (Diff S) → Palette
  | [] => Palette.empty
  | d :: ds => (ds.foldl (fun s e => s.inter e.extraColors) d.extraColors).erase background

/-- All hints, from one comparison for each example. -/
def ofDiffs (ds : List (Diff S)) : List Hint :=
  let failing := ds.filter fun d => !d.exact
  if failing.isEmpty then []
  else
    let solved := ds.length - failing.length
    let common := addedByAll failing
    (if 0 < solved then [.someSolved solved ds.length] else []) ++
    (if failing.all fun d => !d.sameShape then [ofShapes failing]
      else if failing.all fun d => d.sameShape then ofCells failing
      else []) ++
    (if common.isEmpty then [] else [.addsColors common.colors])

end Hint

end GridRepair
