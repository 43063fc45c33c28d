/-
# Documents

Edits, hints, pairs and tasks are read back from their written forms, and what is read of them is
well formed.  With the grids, values and programs of `Encoding`, `codecs_faithful` then passes from
written forms to texts: the text of a well-formed value is read as the value, and whatever text a
value is read from, its grids are valid and its compositions have steps, wherever they stand.

The text of a program, or of an edit that inserts one, has a level for each array and object of its
written form, and it is read only as far as levels are allowed
(`Program.not_read_wrapped`).  The other types have no such forms.
-/
import GridRepair.Codec.Task
import GridRepair.Codec.Verdict
import GridRepair.Proofs.Encoding

namespace GridRepair

/-! ## Edits -/

/-- The indices are counts. -/
def Path.InRange (path : Path) : Prop := ∀ i ∈ path, i ≤ maxCount

/-- Paths are read back. -/
theorem Path.lossless : Lossless Path.InRange Path.toJson Path.ofJson? :=
  Json.lossless_list Json.lossless_count

/-- A path has one level. -/
theorem Path.depth_toJson_le (path : Path) : path.toJson.depth ≤ 1 :=
  Json.depth_list_le (fun _ => Nat.le_refl 0) path

namespace Edit

/-- The numbers are in their ranges, and the step to insert is well formed. -/
def WellFormed : Edit → Prop
  | .swap location _ _ => location.InRange
  | .tweak location index old? new =>
    location.InRange ∧ index ≤ maxCount ∧ (∀ old ∈ old?, minInt ≤ old ∧ old ≤ maxInt) ∧
      (minInt ≤ new ∧ new ≤ maxInt)
  | .insert location index step => location.InRange ∧ index ≤ maxCount ∧ step.WellFormed
  | .remove location => location.InRange
  | .reorder location => location.InRange

/-- Old values are read back, also when there is none. -/
theorem lossless_old :
    Lossless (fun old? => ∀ old ∈ old?, minInt ≤ old ∧ old ≤ maxInt) (Json.option Json.int)
      (Json.option? Json.int?) :=
  Json.lossless_option Json.lossless_int fun _ => nofun

/-- Edits are read back, and what is read is well formed. -/
theorem lossless (source : Json.Source) : Lossless WellFormed toJson (ofJson? source) where
  plain e := by
    cases e with
    | swap location name replacement =>
      exact ⟨⟨Path.lossless.plain location, trivial, trivial, trivial⟩, trivial⟩
    | tweak location index old? new =>
      exact ⟨⟨Path.lossless.plain location, Json.lossless_count.plain index,
        lossless_old.plain old?, Json.lossless_int.plain new, trivial⟩, trivial⟩
    | insert location index step =>
      exact ⟨⟨Path.lossless.plain location, Json.lossless_count.plain index,
        (Program.lossless source).plain step, trivial⟩, trivial⟩
    | remove location => exact ⟨⟨Path.lossless.plain location, trivial⟩, trivial⟩
    | reorder location => exact ⟨⟨Path.lossless.plain location, trivial⟩, trivial⟩
  decode_encode e h := by
    cases e with
    | swap location name replacement =>
      have hread : ofJson? source (swap location name replacement).toJson =
          (Path.ofJson? location.toJson).bind
            fun location => some (Edit.swap location name replacement) := by cases source <;> rfl
      rw [hread, Path.lossless.decode_encode location h, Option.bind_some]
    | tweak location index old? new =>
      obtain ⟨hlocation, hindex, hold, hnew⟩ := h
      have hread : ofJson? source (tweak location index old? new).toJson =
          (Path.ofJson? location.toJson).bind fun location =>
            (Json.nat? (.nat index)).bind fun index =>
            (Json.option? Json.int? (.option Json.int old?)).bind fun old? =>
            (Json.int? (.int new)).bind fun new => some (Edit.tweak location index old? new) := by
        cases source <;> rfl
      rw [hread, Path.lossless.decode_encode location hlocation, Option.bind_some,
        Json.lossless_count.decode_encode index hindex, Option.bind_some,
        lossless_old.decode_encode old? hold, Option.bind_some,
        Json.lossless_int.decode_encode new hnew, Option.bind_some]
    | insert location index step =>
      obtain ⟨hlocation, hindex, hstep⟩ := h
      have hread : ofJson? source (insert location index step).toJson =
          (Path.ofJson? location.toJson).bind fun location =>
            (Json.nat? (.nat index)).bind fun index =>
            (Program.ofJson? source step.toJson).bind fun step =>
            some (Edit.insert location index step) := by cases source <;> rfl
      rw [hread, Path.lossless.decode_encode location hlocation, Option.bind_some,
        Json.lossless_count.decode_encode index hindex, Option.bind_some,
        (Program.lossless source).decode_encode step hstep, Option.bind_some]
    | remove location =>
      have hread : ofJson? source (remove location).toJson =
          (Path.ofJson? location.toJson).bind fun location => some (Edit.remove location) := by
        cases source <;> rfl
      rw [hread, Path.lossless.decode_encode location h, Option.bind_some]
    | reorder location =>
      have hread : ofJson? source (reorder location).toJson =
          (Path.ofJson? location.toJson).bind fun location => some (Edit.reorder location) := by
        cases source <;> rfl
      rw [hread, Path.lossless.decode_encode location h, Option.bind_some]
  sound j e h := by
    obtain ⟨⟨variant, c?⟩, -, h⟩ := Option.bind_eq_some_iff.1 h
    split at h
    · obtain ⟨r, -, h⟩ := Option.bind_eq_some_iff.1 h
      obtain ⟨location, hlocation, h⟩ := Option.bind_eq_some_iff.1 h
      obtain ⟨name, -, h⟩ := Option.bind_eq_some_iff.1 h
      obtain ⟨replacement, -, h⟩ := Option.bind_eq_some_iff.1 h
      cases h
      exact Path.lossless.sound_required hlocation
    · obtain ⟨r, -, h⟩ := Option.bind_eq_some_iff.1 h
      obtain ⟨location, hlocation, h⟩ := Option.bind_eq_some_iff.1 h
      obtain ⟨index, hindex, h⟩ := Option.bind_eq_some_iff.1 h
      obtain ⟨old?, hold, h⟩ := Option.bind_eq_some_iff.1 h
      obtain ⟨new, hnew, h⟩ := Option.bind_eq_some_iff.1 h
      cases h
      exact ⟨Path.lossless.sound_required hlocation,
        Json.lossless_count.sound_required hindex,
        Json.lossless_int.sound_optional hold, Json.lossless_int.sound_required hnew⟩
    · obtain ⟨r, -, h⟩ := Option.bind_eq_some_iff.1 h
      obtain ⟨location, hlocation, h⟩ := Option.bind_eq_some_iff.1 h
      obtain ⟨index, hindex, h⟩ := Option.bind_eq_some_iff.1 h
      obtain ⟨step, hstep, h⟩ := Option.bind_eq_some_iff.1 h
      cases h
      exact ⟨Path.lossless.sound_required hlocation,
        Json.lossless_count.sound_required hindex,
        (Program.lossless source).sound_required hstep⟩
    · obtain ⟨r, -, h⟩ := Option.bind_eq_some_iff.1 h
      obtain ⟨location, hlocation, h⟩ := Option.bind_eq_some_iff.1 h
      cases h
      exact Path.lossless.sound_required hlocation
    · obtain ⟨r, -, h⟩ := Option.bind_eq_some_iff.1 h
      obtain ⟨location, hlocation, h⟩ := Option.bind_eq_some_iff.1 h
      cases h
      exact Path.lossless.sound_required hlocation
    · cases h

end Edit

/-! ## Hints -/

/-- What is read as a variant without content is its value. -/
theorem Json.eq_of_bare? {α : Type} {value x : α} {c? : Option Json}
    (h : Json.bare? value c? = some x) : x = value := by
  unfold Json.bare? at h
  split at h
  · exact (Option.some.inj h).symm
  · exact (Option.some.inj h).symm
  · cases h

namespace Hint

/-- The numbers are in their ranges. -/
def WellFormed : Hint → Prop
  | .recolor source target => source ≤ maxColorCode ∧ target ≤ maxColorCode
  | .scaled factor => factor ≤ maxCount
  | .addsColors colors => ∀ c ∈ colors, c ≤ maxColorCode
  | .someSolved solved total => solved ≤ maxCount ∧ total ≤ maxCount
  | _ => True

/-- Hints are read back, and what is read is well formed. -/
theorem lossless (source : Json.Source) : Lossless WellFormed toJson (ofJson? source) where
  plain h := by
    cases h with
    | recolor color target =>
      exact ⟨⟨Json.lossless_color.plain color,
        Json.lossless_color.plain target, trivial⟩, trivial⟩
    | scaled factor => exact ⟨Json.lossless_count.plain factor, trivial⟩
    | addsColors colors => exact ⟨Palette.lossless_colors.plain colors, trivial⟩
    | someSolved solved total =>
      exact ⟨⟨Json.lossless_count.plain solved,
        Json.lossless_count.plain total, trivial⟩, trivial⟩
    | _ => trivial
  decode_encode x h := by
    cases x with
    | recolor color target =>
      have hread : ofJson? source (recolor color target).toJson =
          (Json.colorCode? (.nat color)).bind fun color =>
            (Json.colorCode? (.nat target)).bind fun target => some (Hint.recolor color target) := by
        cases source <;> rfl
      rw [hread, Json.lossless_color.decode_encode color h.1, Option.bind_some,
        Json.lossless_color.decode_encode target h.2, Option.bind_some]
    | scaled factor =>
      show (Json.nat? (.nat factor)).map Hint.scaled = _
      rw [Json.lossless_count.decode_encode factor h, Option.map_some]
    | addsColors colors =>
      show (Palette.colorsOfJson? (Palette.colorsToJson colors)).map Hint.addsColors = _
      rw [Palette.lossless_colors.decode_encode colors h, Option.map_some]
    | someSolved solved total =>
      have hread : ofJson? source (someSolved solved total).toJson =
          (Json.nat? (.nat solved)).bind fun solved =>
            (Json.nat? (.nat total)).bind fun total => some (Hint.someSolved solved total) := by
        cases source <;> rfl
      rw [hread, Json.lossless_count.decode_encode solved h.1, Option.bind_some,
        Json.lossless_count.decode_encode total h.2, Option.bind_some]
    | _ => rfl
  sound j x h := by
    obtain ⟨⟨variant, c?⟩, -, h⟩ := Option.bind_eq_some_iff.1 h
    split at h
    · obtain ⟨r, -, h⟩ := Option.bind_eq_some_iff.1 h
      obtain ⟨color, hcolor, h⟩ := Option.bind_eq_some_iff.1 h
      obtain ⟨target, htarget, h⟩ := Option.bind_eq_some_iff.1 h
      cases h
      exact ⟨Json.lossless_color.sound_required hcolor,
        Json.lossless_color.sound_required htarget⟩
    · obtain ⟨factor, hfactor, rfl⟩ := Option.map_eq_some_iff.1 h
      exact Json.lossless_count.sound _ factor hfactor
    · exact Json.eq_of_bare? h ▸ trivial
    · exact Json.eq_of_bare? h ▸ trivial
    · exact Json.eq_of_bare? h ▸ trivial
    · exact Json.eq_of_bare? h ▸ trivial
    · obtain ⟨colors, hcolors, rfl⟩ := Option.map_eq_some_iff.1 h
      exact Palette.lossless_colors.sound _ colors hcolors
    · obtain ⟨r, -, h⟩ := Option.bind_eq_some_iff.1 h
      obtain ⟨solved, hsolved, h⟩ := Option.bind_eq_some_iff.1 h
      obtain ⟨total, htotal, h⟩ := Option.bind_eq_some_iff.1 h
      cases h
      exact ⟨Json.lossless_count.sound_required hsolved,
        Json.lossless_count.sound_required htotal⟩
    · cases h

/-- The written form of a hint has at most two levels. -/
theorem depth_toJson_le (h : Hint) : h.toJson.depth ≤ 2 := by
  cases h with
  | addsColors colors =>
    rw [toJson, Json.depth_variant]
    exact Nat.succ_le_succ (Palette.depth_colorsToJson_le colors)
  | _ => exact Nat.le_of_ble_eq_true rfl

end Hint

/-! ## Tasks -/

/-- The grids of the pair are valid. -/
def Pair.WellFormed (p : Pair) : Prop := p.input.Valid ∧ ∀ out ∈ p.output?, out.Valid

/-- The grids of all pairs are valid. -/
def Task.WellFormed (t : Task) : Prop :=
  (∀ p ∈ t.train, p.WellFormed) ∧ ∀ p ∈ t.test, p.WellFormed

/-- Outputs are read back, also when there is none. -/
theorem Pair.lossless_output :
    Lossless (fun out? => ∀ out ∈ out?, Grid.Valid out) (Json.option Grid.toJson)
      (Json.option? Grid.ofJson?) :=
  Json.lossless_option Grid.lossless fun _ => nofun

/-- Pairs are read back, and what is read is well formed. -/
theorem Pair.lossless : Lossless WellFormed toJson ofJson? where
  plain p := by
    obtain ⟨input, output?⟩ := p
    cases output? with
    | none => exact ⟨Grid.lossless.plain input, trivial⟩
    | some out => exact ⟨Grid.lossless.plain input, Grid.lossless.plain out, trivial⟩
  decode_encode p h := by
    obtain ⟨input, output?⟩ := p
    obtain ⟨hinput, hout⟩ := h
    cases output? with
    | none =>
      show (Grid.ofJson? input.toJson).bind (fun input => some (Pair.mk input none)) = _
      rw [Grid.lossless.decode_encode input hinput, Option.bind_some]
    | some out =>
      show (Grid.ofJson? input.toJson).bind (fun input =>
        (Json.option? Grid.ofJson? (.option Grid.toJson (some out))).bind fun out? =>
        some (Pair.mk input out?)) = _
      rw [Grid.lossless.decode_encode input hinput, Option.bind_some,
        lossless_output.decode_encode (some out) hout, Option.bind_some]
  sound j p h := by
    obtain ⟨r, -, h⟩ := Option.bind_eq_some_iff.1 h
    obtain ⟨input, hinput, h⟩ := Option.bind_eq_some_iff.1 h
    obtain ⟨out?, hout, h⟩ := Option.bind_eq_some_iff.1 h
    cases h
    exact ⟨Grid.lossless.sound_required hinput, lossless_output.sound_orElse hout nofun⟩

/-- The written form of a pair has three levels. -/
theorem Pair.depth_toJson_le (p : Pair) : p.toJson.depth ≤ 3 := by
  obtain ⟨input, output?⟩ := p
  have hinput := input.depth_toJson_le
  cases output? with
  | none =>
    simp only [toJson, Json.depth, Json.depthFields]
    omega
  | some out =>
    have hout := out.depth_toJson_le
    simp only [toJson, Json.depth, Json.depthFields]
    omega

/-- Lists of pairs are read back. -/
theorem Pair.lossless_all :
    Lossless (fun ps => ∀ p ∈ ps, Pair.WellFormed p) (Json.list Pair.toJson)
      (Json.list? Pair.ofJson?) :=
  Json.lossless_list Pair.lossless

/-- Tasks are read back, and what is read is well formed. -/
theorem Task.lossless : Lossless WellFormed toJson ofJson? where
  plain t := ⟨trivial, Pair.lossless_all.plain t.train, Pair.lossless_all.plain t.test, trivial⟩
  decode_encode t h := by
    show (Json.list? Pair.ofJson? (.list Pair.toJson t.train)).bind (fun train =>
      (Json.list? Pair.ofJson? (.list Pair.toJson t.test)).bind fun test =>
      some (Task.mk t.name train test)) = _
    rw [Pair.lossless_all.decode_encode t.train h.1, Option.bind_some,
      Pair.lossless_all.decode_encode t.test h.2, Option.bind_some]
  sound j t h := by
    obtain ⟨r, -, h⟩ := Option.bind_eq_some_iff.1 h
    obtain ⟨name, -, h⟩ := Option.bind_eq_some_iff.1 h
    obtain ⟨train, htrain, h⟩ := Option.bind_eq_some_iff.1 h
    obtain ⟨test, htest, h⟩ := Option.bind_eq_some_iff.1 h
    cases h
    exact ⟨Pair.lossless_all.sound_required htrain, Pair.lossless_all.sound_orElse htest nofun⟩

/-- The written form of a task has at most five levels. -/
theorem Task.depth_toJson_le (t : Task) : t.toJson.depth ≤ 5 := by
  have hpairs : ∀ ps : List Pair, (Json.list Pair.toJson ps).depth ≤ 4 :=
    Json.depth_list_le Pair.depth_toJson_le
  have htrain := hpairs t.train
  have htest := hpairs t.test
  simp only [toJson, Json.depth, Json.depthFields] at htrain htest ⊢
  omega

/-- Tasks that are loaded from a text are well formed. -/
theorem Task.wellFormed_of_load {name text : String} {t : Task} (h : Task.load name text = .ok t) :
    t.WellFormed := by
  unfold Task.load at h
  split at h
  · next train test hpairs =>
    obtain ⟨j, -, hpairs⟩ := Option.bind_eq_some_iff.1 hpairs
    obtain ⟨r, -, hpairs⟩ := Option.bind_eq_some_iff.1 hpairs
    obtain ⟨train', htrain, hpairs⟩ := Option.bind_eq_some_iff.1 hpairs
    obtain ⟨test', htest, hpairs⟩ := Option.bind_eq_some_iff.1 hpairs
    cases hpairs
    unfold Task.checked at h
    split at h
    · cases h
    · cases h
      exact ⟨Pair.lossless_all.sound_required htrain, Pair.lossless_all.sound_orElse htest nofun⟩
  · cases h

/-! ## All written forms -/

/-- **Written forms lose nothing and admit nothing malformed.**  Well-formed grids, values,
programs, paths, edits, hints, pairs and tasks are read back from what is written, as a value and, down
to the levels that texts are read to, as a text; only programs and edits can go deeper.  Whatever is read
as one of them is well formed, and so is every task that is loaded. -/
theorem codecs_faithful :
    (Faithful Grid.Valid Grid.toJson (fun _ => Grid.ofJson?) ∧
      ∀ g : Grid, g.toJson.depth ≤ Json.maxDepth) ∧
    (Faithful Value.WellFormed Value.toJson (fun _ => Value.ofJson?) ∧
      ∀ v : Value, v.toJson.depth ≤ Json.maxDepth) ∧
    Faithful Program.WellFormed Program.toJson Program.ofJson? ∧
    (Faithful Path.InRange Path.toJson (fun _ => Path.ofJson?) ∧
      ∀ path : Path, path.toJson.depth ≤ Json.maxDepth) ∧
    Faithful Edit.WellFormed Edit.toJson Edit.ofJson? ∧
    (Faithful Hint.WellFormed Hint.toJson Hint.ofJson? ∧
      ∀ hint : Hint, hint.toJson.depth ≤ Json.maxDepth) ∧
    (Faithful Pair.WellFormed Pair.toJson (fun _ => Pair.ofJson?) ∧
      ∀ p : Pair, p.toJson.depth ≤ Json.maxDepth) ∧
    (Faithful Task.WellFormed Task.toJson (fun _ => Task.ofJson?) ∧
      ∀ t : Task, t.toJson.depth ≤ Json.maxDepth) ∧
    ∀ name text t, Task.load name text = .ok t → t.WellFormed :=
  ⟨⟨Lossless.faithful fun _ => Grid.lossless, fun g => g.depth_toJson_le.trans (by decide)⟩,
    ⟨Lossless.faithful fun _ => Value.lossless, fun v => v.depth_toJson_le.trans (by decide)⟩,
    Lossless.faithful Program.lossless,
    ⟨Lossless.faithful fun _ => Path.lossless, fun path => path.depth_toJson_le.trans (by decide)⟩,
    Lossless.faithful Edit.lossless,
    ⟨Lossless.faithful Hint.lossless, fun hint => hint.depth_toJson_le.trans (by decide)⟩,
    ⟨Lossless.faithful fun _ => Pair.lossless, fun p => p.depth_toJson_le.trans (by decide)⟩,
    ⟨Lossless.faithful fun _ => Task.lossless, fun t => t.depth_toJson_le.trans (by decide)⟩,
    fun _ _ _ h => Task.wellFormed_of_load h⟩

/-- An edit that inserts a composition, in which a grid stands in an argument. -/
def insertNested : Edit :=
  .insert [0, 1] 2 (.compose [.apply "overlay" [.grid (.dot 3)],
    .compose [.apply "rotate90" [.int (-1)]]])

/-- The text of a task with one training pair. -/
def dotText : String := "\x7b\"train\": [\x7b\"input\": [[3]], \"output\": [[4]]\x7d]\x7d"

/-- The edit is read back from its text, whose written form has eleven levels, and the task that is loaded
is well formed. -/
theorem codecs_faithful_insertNested :
    insertNested.WellFormed ∧ insertNested.toJson.depth = 11 ∧
      (Json.ofText? insertNested.toJson.render).bind (Edit.ofJson? .text) = some insertNested ∧
      Task.load "dot" dotText = .ok ⟨"dot", [⟨.dot 3, some (.dot 4)⟩], []⟩ ∧
      Task.WellFormed ⟨"dot", [⟨.dot 3, some (.dot 4)⟩], []⟩ := by
  have hpath : Path.InRange [0, 1] := by
    unfold Path.InRange
    decide
  have hdot : (Grid.dot 3).Valid := by decide
  have hturns : minInt ≤ -1 ∧ -1 ≤ maxInt := by decide
  have hformed : insertNested.WellFormed :=
    ⟨hpath, by decide, nofun, ⟨⟨hdot, trivial⟩, ⟨nofun, ⟨hturns, trivial⟩, trivial⟩, trivial⟩⟩
  have hload : Task.load "dot" dotText = .ok ⟨"dot", [⟨.dot 3, some (.dot 4)⟩], []⟩ := by
    decide +kernel
  have hdepth : insertNested.toJson.depth = 11 := rfl
  obtain ⟨-, -, -, -, hedits, -, -, -, hloads⟩ := codecs_faithful
  exact ⟨hformed, hdepth, hedits.ofText_render insertNested hformed (by rw [hdepth]; decide), hload,
    hloads _ _ _ hload⟩

/-- Compositions of a single step, one inside another, around the identity. -/
def Program.wrapped : Nat → Program
  | 0 => .identity
  | n + 1 => .compose [wrapped n]

/-- Sixty-three compositions in each other are well formed, but their written form is nested too deeply
for a text to be read back. -/
theorem Program.not_read_wrapped : ¬ ∀ p : Program, p.WellFormed →
    (Json.ofText? p.toJson.render).bind (Program.ofJson? .text) = some p := by
  intro h
  have hformed : ∀ n, (wrapped n).WellFormed := by
    intro n
    induction n with
    | zero => exact trivial
    | succ n ih => exact ⟨List.cons_ne_nil _ _, ih, trivial⟩
  have hread := h (wrapped 63) (hformed 63)
  rw [Json.ofText?_render (plain_toJson (wrapped 63)), Option.bind_some] at hread
  have hcut : (Program.ofJson? .text ((wrapped 63).toJson.within Json.maxDepth)).isNone = true := by
    decide +kernel
  rw [hread] at hcut
  cases hcut

/-- An empty composition is refused as an argument too. -/
example :
    Program.ofJson? .document (.variant "Primitive" (.object [("name", .text "overlay"),
      ("args", .array [.variant "Compose" (.array [])])])) = none := rfl

end GridRepair
