/-
# Written forms lose nothing and admit nothing malformed

What is written down is read back, and what is read is well formed (`Lossless`).  The types nest:
programs stand in arguments of programs and in edits, grids in values, pairs and tasks.  So both
directions are proved for numbers, carried over to lists (`Json.lossless_list`), and put together
along the types; for programs this is an induction over the tree one way and over the fuel of the
reader the other way.

Well formed means that numbers are in their ranges, that grids are valid, and that every
composition has a step, at every depth and among arguments too (`Program.Proper`).

A text is read down to `Json.maxDepth` levels.  Written forms of grids and values stay far above them
(`Grid.depth_toJson_le`, `Value.depth_toJson_le`), and those of programs go as deep as the program does.
-/
import Mathlib.Data.List.OfFn
import GridRepair.Codec.Program
import GridRepair.Proofs.Addresses
import GridRepair.Proofs.Inversion
import GridRepair.Proofs.Text

namespace GridRepair

/-! ## Codecs -/

/-- Every member of the class is read back from its written form, which is plain, and only members
of the class are read. -/
structure Lossless {α : Type} (P : α → Prop) (encode : α → Json) (decode : Json → Option α) :
    Prop where
  plain : ∀ x, (encode x).Plain
  decode_encode : ∀ x, P x → decode (encode x) = some x
  sound : ∀ j x, decode j = some x → P x

/-- Every member of the class is read back from its written form, wherever that stands, and from its
text, if that is not nested too deeply; and whatever is read, from a JSON value or from any text, is in
the class. -/
structure Faithful {α : Type} (P : α → Prop) (encode : α → Json)
    (decode : Json.Source → Json → Option α) : Prop where
  decode_encode : ∀ source x, P x → decode source (encode x) = some x
  ofText_render : ∀ x, P x → (encode x).depth ≤ Json.maxDepth →
    (Json.ofText? (encode x).render).bind (decode .text) = some x
  /-- a limit on the nesting is no obstacle if the written form keeps it -/
  read_render : ∀ source x limit, P x → (encode x).depth ≤ limit →
    (Json.read? limit (encode x).render).bind (decode source) = some x
  sound : ∀ source j x, decode source j = some x → P x
  sound_text : ∀ text x, (Json.ofText? text).bind (decode .text) = some x → P x
  sound_read : ∀ source limit text x, (Json.read? limit text).bind (decode source) = some x → P x

/-- What holds for written forms holds for texts, since written forms are plain. -/
theorem Lossless.faithful {α : Type} {P : α → Prop} {encode : α → Json}
    {decode : Json.Source → Json → Option α} (h : ∀ source, Lossless P encode (decode source)) :
    Faithful P encode decode where
  decode_encode source := (h source).decode_encode
  ofText_render x hx hdepth := by
    rw [Json.ofText?_render_of_depth_le ((h .text).plain x) hdepth, Option.bind_some,
      (h .text).decode_encode x hx]
  read_render source x limit hx hlimit := by
    rw [Json.read?_render ((h source).plain x) hlimit, Option.bind_some,
      (h source).decode_encode x hx]
  sound source := (h source).sound
  sound_text text x hx := by
    obtain ⟨j, -, hdecode⟩ := Option.bind_eq_some_iff.1 hx
    exact (h .text).sound j x hdecode
  sound_read source limit text x hx := by
    obtain ⟨j, -, hdecode⟩ := Option.bind_eq_some_iff.1 hx
    exact (h source).sound j x hdecode

namespace Json

variable {α : Type} {P : α → Prop} {encode : α → Json} {decode : Json → Option α}

/-- Integer arguments are read back and stay in their range. -/
theorem lossless_int : Lossless (fun n => minInt ≤ n ∧ n ≤ maxInt) int int? where
  plain n := ⟨_, _, rfl⟩
  decode_encode n h := by
    rw [int, int?, Numeral.int?_ofInt, Option.filter_some, if_pos (decide_eq_true h)]
  sound j n h := by
    cases j with
    | number k => exact of_decide_eq_true (Option.filter_eq_some_iff.1 h).2
    | _ => cases h

/-- Natural numbers are read back and stay below their bound. -/
theorem lossless_nat (bound : Nat) : Lossless (· ≤ bound) nat (natUpTo? bound) where
  plain n := ⟨_, _, rfl⟩
  decode_encode n h := by
    have hrange : (0 : Int) ≤ Int.ofNat n ∧ Int.ofNat n ≤ bound := by
      rw [Int.ofNat_eq_natCast]
      omega
    rw [nat, int, natUpTo?, Numeral.int?_ofInt, Option.filter_some, if_pos (decide_eq_true hrange)]
    rfl
  sound j n h := by
    cases j with
    | number k =>
      obtain ⟨m, hm, rfl⟩ := Option.map_eq_some_iff.1 h
      have hrange := of_decide_eq_true (Option.filter_eq_some_iff.1 hm).2
      show m.toNat ≤ bound
      omega
    | _ => cases h

/-- Counts are read back. -/
theorem lossless_count : Lossless (· ≤ maxCount) nat nat? := lossless_nat maxCount

/-- Color codes are read back. -/
theorem lossless_color : Lossless (· ≤ maxColorCode) nat colorCode? := lossless_nat maxColorCode

/-- Written items are read back, if each of them is. -/
theorem allOf?_map {xs : List α} (h : ∀ x ∈ xs, decode (encode x) = some x) :
    allOf? decode (xs.map encode) = some xs := by
  induction xs with
  | nil => rfl
  | cons x xs ih =>
    obtain ⟨hx, hxs⟩ := List.forall_mem_cons.1 h
    rw [List.map_cons, allOf?, hx, ih hxs]

/-- What is read from items was read from one of them. -/
theorem exists_of_mem_allOf? {js : List Json} {xs : List α} (h : allOf? decode js = some xs) :
    ∀ x ∈ xs, ∃ j, decode j = some x := by
  induction js generalizing xs with
  | nil =>
    cases h
    exact nofun
  | cons j js ih =>
    rw [allOf?] at h
    split at h
    · next y ys hy hys =>
      cases h
      exact List.forall_mem_cons.2 ⟨⟨j, hy⟩, ih hys⟩
    · cases h

/-- What is in a list was read from some value. -/
theorem exists_of_mem_list? {j : Json} {xs : List α} (h : list? decode j = some xs) :
    ∀ x ∈ xs, ∃ k, decode k = some x := by
  cases j with
  | array items => exact exists_of_mem_allOf? h
  | _ => cases h

/-- Lists are read back when their items are. -/
theorem lossless_list (h : Lossless P encode decode) :
    Lossless (fun xs => ∀ x ∈ xs, P x) (list encode) (list? decode) where
  plain xs := by
    refine plainItems_iff.2 fun j hj => ?_
    obtain ⟨x, -, rfl⟩ := List.mem_map.1 hj
    exact h.plain x
  decode_encode xs hxs := allOf?_map fun x hx => h.decode_encode x (hxs x hx)
  sound j xs hxs x hx := by
    obtain ⟨k, hk⟩ := exists_of_mem_list? hxs x hx
    exact h.sound k x hk

/-- What is read as a value that may be missing is in the class. -/
theorem sound_of_option? {j : Json} {x? : Option α} (h : Lossless P encode decode)
    (hx : option? decode j = some x?) : ∀ x ∈ x?, P x := by
  rw [option?.eq_def] at hx
  split at hx
  · cases hx
    exact nofun
  · obtain ⟨x, hdecode, rfl⟩ := Option.map_eq_some_iff.1 hx
    rintro y ⟨⟩
    exact h.sound j x hdecode

/-- Values that may be missing are read back when values are, unless they are written as null. -/
theorem lossless_option (h : Lossless P encode decode) (hnull : ∀ x, encode x ≠ .null) :
    Lossless (fun x? => ∀ x ∈ x?, P x) (option encode) (option? decode) where
  plain x? := by
    cases x? with
    | none => trivial
    | some x => exact h.plain x
  decode_encode x? hx := by
    cases x? with
    | none => rfl
    | some x =>
      rw [option, option?, h.decode_encode x (hx x rfl), Option.map_some]
      exact hnull x
  sound j x? hx := sound_of_option? h hx

/-- Lists of two are read back when their items are. -/
theorem lossless_pair {β : Type} {Q : β → Prop} {encode' : β → Json} {decode' : Json → Option β}
    (h : Lossless P encode decode) (h' : Lossless Q encode' decode') :
    Lossless (fun x => P x.1 ∧ Q x.2) (fun x => .array [encode x.1, encode' x.2])
      (pair? decode decode') where
  plain x := ⟨h.plain x.1, h'.plain x.2, trivial⟩
  decode_encode x hx := by
    rw [pair?, h.decode_encode x.1 hx.1, h'.decode_encode x.2 hx.2]
    rfl
  sound j x hx := by
    unfold pair? at hx
    split at hx
    · next j k =>
      obtain ⟨y, hy, hx⟩ := Option.bind_eq_some_iff.1 hx
      obtain ⟨z, hz, hx⟩ := Option.bind_eq_some_iff.1 hx
      cases hx
      exact ⟨h.sound j y hy, h'.sound k z hz⟩
    · cases hx

/-! ### Levels -/

/-- Items are as deep as the deepest one. -/
theorem depthItems_le_iff {js : List Json} {n : Nat} :
    depthItems js ≤ n ↔ ∀ j ∈ js, j.depth ≤ n := by
  induction js with
  | nil => exact iff_of_true (Nat.zero_le n) nofun
  | cons j js ih => rw [depthItems, Nat.max_le, List.forall_mem_cons, ih]

/-- A list has one level more than its items. -/
theorem depth_list_le {n : Nat} (h : ∀ x, (encode x).depth ≤ n) (xs : List α) :
    (list encode xs).depth ≤ n + 1 := by
  refine Nat.succ_le_succ (depthItems_le_iff.2 fun j hj => ?_)
  obtain ⟨x, -, rfl⟩ := List.mem_map.1 hj
  exact h x

/-- A variant has one level more than its content. -/
theorem depth_variant (name : String) (content : Json) :
    (variant name content).depth = content.depth + 1 := by
  rw [variant, depth, depthFields, depthFields, Nat.max_zero]

end Json

/-! ## Fields -/

namespace Lossless

variable {α : Type} {P : α → Prop} {encode : α → Json} {decode : Json → Option α}
  {r : Json.Record} {name : String}

/-- What is read from a field is in the class. -/
theorem sound_required {x : α} (h : Lossless P encode decode)
    (hx : r.required? name decode = some x) : P x := by
  obtain ⟨j, -, hdecode⟩ := Option.bind_eq_some_iff.1 hx
  exact h.sound j x hdecode

/-- What is read from a field that may be null is in the class. -/
theorem sound_optional {x? : Option α} (h : Lossless P encode decode)
    (hx : r.optional? name decode = some x?) : ∀ x ∈ x?, P x := by
  unfold Json.Record.optional? at hx
  split at hx
  · next j _ => exact Json.sound_of_option? h hx
  · split at hx
    · cases hx
    · cases hx
      exact nofun

/-- What is read from a field with a default is in the class, if the default is. -/
theorem sound_orElse {x value : α} (h : Lossless P encode decode)
    (hx : r.orElse? name decode value = some x) (hvalue : P value) : P x := by
  unfold Json.Record.orElse? at hx
  split at hx
  · next j _ => exact h.sound j x hx
  · cases hx
    exact hvalue

end Lossless

/-! ## Grids -/

/-- Color codes are read back. -/
theorem Palette.lossless_colors :
    Lossless (fun cs => ∀ c ∈ cs, c ≤ maxColorCode) Palette.colorsToJson Palette.colorsOfJson? :=
  Json.lossless_list Json.lossless_color

namespace Grid

variable {rows : List (List Color)} {g : Grid}

/-- Rows have no fault when all of them are as wide as asked for and hold only colors. -/
theorem rowsFault?_eq_none_iff {width index : Nat} :
    rowsFault? width index rows = none ↔
      ∀ row ∈ rows, row.length = width ∧ ∀ c ∈ row, c ≤ maxColor := by
  induction rows generalizing index with
  | nil => simp [rowsFault?]
  | cons row rows ih =>
    have hrow : rowFault? width index row = none ↔
        row.length = width ∧ ∀ c ∈ row, c ≤ maxColor := by
      rw [rowFault?]
      by_cases hlength : row.length = width
      · rw [if_neg (not_not.2 hlength), Option.map_eq_none_iff, bind_pure_comp,
          Option.map_eq_map, Option.map_eq_none_iff, List.find?_eq_none]
        simp only [decide_eq_true_eq, Nat.not_lt]
        exact (and_iff_right hlength).symm
      · rw [if_pos hlength]
        exact iff_of_false (Option.some_ne_none _) fun h => hlength h.1
    rw [rowsFault?, Option.or_eq_none_iff, hrow, ih, List.forall_mem_cons]

/-- Sides pass the check when there is a cell. -/
theorem checkSides_eq_ok_iff {shape : Shape} {u : Unit} :
    checkSides shape = .ok u ↔ 0 < shape.height ∧ 0 < shape.width := by
  unfold checkSides
  split
  · exact iff_of_false nofun (by omega)
  · exact iff_of_true rfl (by omega)

/-- A grid that is made from rows is valid. -/
theorem valid_of_ofRows (h : ofRows rows = .ok g) : g.Valid := by
  unfold ofRows at h
  obtain ⟨_, hsides, h⟩ := bind_eq_ok.1 h
  obtain ⟨hheight, hwidth⟩ := checkSides_eq_ok_iff.1 hsides
  split at h
  · cases h
  · next hrows =>
    cases h
    refine ⟨hheight, hwidth, fun c hc => ?_⟩
    obtain ⟨row, hrow, hc⟩ := List.mem_flatten.1 (List.mem_toArray.1 hc)
    exact (rowsFault?_eq_none_iff.1 hrows row hrow).2 c hc

/-- The rows of a grid, one after the other, are its cells. -/
theorem flatten_rows (g : Grid) : g.rows.flatten = g.cells.toList := by
  obtain ⟨height, width, cells, hsize⟩ := g
  have hrows : (⟨height, width, cells, hsize⟩ : Grid).rows.flatten =
      List.ofFn fun i : Fin (height * width) => cells[Fin.cast hsize.symm i] := by
    rw [List.ofFn_mul]
    rfl
  rw [hrows]
  refine List.ext_getElem (by rw [List.length_ofFn, Array.length_toList, hsize]) ?_
  intro i hi hi'
  rw [List.getElem_ofFn, Array.getElem_toList]
  rfl

/-- What stands in a row stands in a cell. -/
theorem mem_cells_of_mem_rows {row : List Color} {c : Color} (hrow : row ∈ g.rows)
    (hc : c ∈ row) : c ∈ g.cells := by
  rw [← Array.mem_toList_iff, ← flatten_rows]
  exact List.mem_flatten.2 ⟨row, hrow, hc⟩

/-- The rows of a valid grid make the grid again. -/
theorem ofRows_rows (h : g.Valid) : ofRows g.rows = .ok g := by
  obtain ⟨hheight, hwidth, hcolors⟩ := h
  have hlength : g.rows.length = g.height := List.length_ofFn
  have hrow : ∀ row ∈ g.rows, row.length = g.width ∧ ∀ c ∈ row, c ≤ maxColor := by
    intro row hrow
    refine ⟨?_, fun c hc => hcolors c (mem_cells_of_mem_rows hrow hc)⟩
    obtain ⟨i, rfl⟩ := (List.mem_ofFn' _ _).1 hrow
    exact List.length_ofFn
  have hfirst : (g.rows.head?.map List.length).getD 0 = g.width := by
    obtain ⟨row, rows, hrows⟩ := List.exists_cons_of_length_pos (hlength ▸ hheight)
    rw [hrows]
    exact (hrow row (hrows ▸ List.mem_cons_self)).1
  have hsides : checkSides ⟨g.rows.length, (g.rows.head?.map List.length).getD 0⟩ = .ok () := by
    rw [hlength, hfirst]
    exact checkSides_eq_ok_iff.2 ⟨hheight, hwidth⟩
  have hfault : rowsFault? ((g.rows.head?.map List.length).getD 0) 0 g.rows = none := by
    rw [hfirst]
    exact rowsFault?_eq_none_iff.2 hrow
  have hcells : g.rows.flatten.toArray = g.cells := by
    rw [flatten_rows, Array.toArray_toList]
  unfold ofRows
  refine bind_eq_ok.2 ⟨(), hsides, ?_⟩
  split
  · next fault h =>
    rw [hfault] at h
    cases h
  · obtain ⟨height, width, cells, hsize⟩ := g
    simp only [Except.ok.injEq, mk.injEq]
    exact ⟨hlength, hfirst, hcells⟩

/-- Valid grids are read back, and only valid grids are read. -/
theorem lossless : Lossless Valid toJson ofJson? where
  plain g := (Json.lossless_list Palette.lossless_colors).plain g.rows
  decode_encode g h := by
    have hcodes : ∀ row ∈ g.rows, ∀ c ∈ row, c ≤ maxColorCode := fun row hrow c hc =>
      (h.2.2 c (mem_cells_of_mem_rows hrow hc)).trans (by decide)
    have hrows : rowsOfJson? g.toJson = some g.rows :=
      (Json.lossless_list Palette.lossless_colors).decode_encode g.rows hcodes
    rw [ofJson?, hrows, Option.bind_eq_bind, Option.bind_some, ofRows_rows h]
  sound j g h := by
    obtain ⟨rows, -, h⟩ := Option.bind_eq_some_iff.1 h
    split at h
    · next hrows =>
      cases h
      exact valid_of_ofRows hrows
    · cases h

end Grid

/-- A list of colors has one level. -/
theorem Palette.depth_colorsToJson_le (cs : List Color) : (colorsToJson cs).depth ≤ 1 :=
  Json.depth_list_le (fun _ => Nat.le_refl 0) cs

/-- The written form of a grid has two levels. -/
theorem Grid.depth_toJson_le (g : Grid) : g.toJson.depth ≤ 2 :=
  Json.depth_list_le Palette.depth_colorsToJson_le g.rows

/-! ## Values -/

/-- The row and the column are counts. -/
def Cell.InRange (p : Cell) : Prop := p.row ≤ maxCount ∧ p.col ≤ maxCount

/-- Cells are read back. -/
theorem Cell.lossless : Lossless Cell.InRange Cell.toJson Cell.ofJson? where
  plain p := (Json.lossless_pair Json.lossless_count Json.lossless_count).plain
    (p.row, p.col)
  decode_encode p h := by
    have hpair : Json.pair? Json.nat? Json.nat? p.toJson = some (p.row, p.col) :=
      (Json.lossless_pair Json.lossless_count Json.lossless_count).decode_encode
        (p.row, p.col) h
    rw [Cell.ofJson?, hpair, Option.map_some]
  sound j p h := by
    obtain ⟨⟨row, col⟩, hpair, rfl⟩ := Option.map_eq_some_iff.1 h
    exact (Json.lossless_pair Json.lossless_count Json.lossless_count).sound j
      (row, col) hpair

namespace Value

/-- The numbers are in their ranges, and a grid is valid. -/
def WellFormed : Value → Prop
  | .int n => minInt ≤ n ∧ n ≤ maxInt
  | .bool _ => True
  | .grid g => g.Valid
  | .colors cs => ∀ c ∈ cs, c ≤ maxColorCode
  | .positions ps => ∀ p ∈ ps, p.InRange

/-- Values are read back, and what is read is well formed. -/
theorem lossless : Lossless WellFormed toJson ofJson? where
  plain v := by
    cases v with
    | int n => exact ⟨Json.lossless_int.plain n, trivial⟩
    | bool b => exact ⟨trivial, trivial⟩
    | grid g => exact ⟨Grid.lossless.plain g, trivial⟩
    | colors cs => exact ⟨Palette.lossless_colors.plain cs, trivial⟩
    | positions ps => exact ⟨(Json.lossless_list Cell.lossless).plain ps, trivial⟩
  decode_encode v h := by
    cases v with
    | int n =>
      show (Json.int? (.int n)).map Value.int = _
      rw [Json.lossless_int.decode_encode n h, Option.map_some]
    | bool b => rfl
    | grid g =>
      show (Grid.ofJson? g.toJson).map Value.grid = _
      rw [Grid.lossless.decode_encode g h, Option.map_some]
    | colors cs =>
      show (Palette.colorsOfJson? (Palette.colorsToJson cs)).map Value.colors = _
      rw [Palette.lossless_colors.decode_encode cs h, Option.map_some]
    | positions ps =>
      show (Json.list? Cell.ofJson? (.list Cell.toJson ps)).map Value.positions = _
      rw [(Json.lossless_list Cell.lossless).decode_encode ps h, Option.map_some]
  sound j v h := by
    obtain ⟨⟨name, c?⟩, -, h⟩ := Option.bind_eq_some_iff.1 h
    split at h
    · obtain ⟨n, hn, rfl⟩ := Option.map_eq_some_iff.1 h
      exact Json.lossless_int.sound _ n hn
    · obtain ⟨b, -, rfl⟩ := Option.map_eq_some_iff.1 h
      trivial
    · obtain ⟨g, hg, rfl⟩ := Option.map_eq_some_iff.1 h
      exact Grid.lossless.sound _ g hg
    · obtain ⟨cs, hcs, rfl⟩ := Option.map_eq_some_iff.1 h
      exact Palette.lossless_colors.sound _ cs hcs
    · obtain ⟨ps, hps, rfl⟩ := Option.map_eq_some_iff.1 h
      exact (Json.lossless_list Cell.lossless).sound _ ps hps
    · cases h

/-- The written form of a value has at most three levels. -/
theorem depth_toJson_le (v : Value) : v.toJson.depth ≤ 3 := by
  cases v with
  | int n => exact Nat.le_of_ble_eq_true rfl
  | bool b => exact Nat.le_of_ble_eq_true rfl
  | grid g =>
    rw [toJson, Json.depth_variant]
    exact Nat.succ_le_succ g.depth_toJson_le
  | colors cs =>
    rw [toJson, Json.depth_variant]
    exact Nat.succ_le_succ ((Palette.depth_colorsToJson_le cs).trans (by decide))
  | positions ps =>
    rw [toJson, Json.depth_variant]
    exact Nat.succ_le_succ (Json.depth_list_le (fun _ => Nat.le_refl 1) ps)

end Value

/-! ## Programs -/

namespace Program

open Json (depthItems PlainItems)

/-- Every composition has a step, at every depth and among arguments too, and the values of all
literals are well formed. -/
def WellFormed : Program → Prop := Proper Value.WellFormed

mutual

/-- The written form of a program is plain. -/
theorem plain_toJson : ∀ p : Program, p.toJson.Plain
  | .call name args => by
    have hargs := plainItems_toJsonAll args
    exact ⟨⟨trivial, hargs, trivial⟩, trivial⟩
  | .compose steps => ⟨plainItems_toJsonAll steps, trivial⟩
  | .literal v => ⟨Value.lossless.plain v, trivial⟩

/-- The written forms of programs are plain. -/
theorem plainItems_toJsonAll : ∀ ps : List Program, PlainItems (toJsonAll ps)
  | [] => trivial
  | p :: ps => ⟨plain_toJson p, plainItems_toJsonAll ps⟩

end

/-- The written form of a call is deeper than its arguments. -/
theorem depthItems_lt_depth_call (name : String) (args : List Program) :
    depthItems (toJsonAll args) < (call name args).toJson.depth := by
  simp only [toJson, Json.variant, Json.depth, Json.depthFields]
  omega

/-- The written form of a composition is deeper than its steps. -/
theorem depthItems_lt_depth_compose (steps : List Program) :
    depthItems (toJsonAll steps) < (compose steps).toJson.depth := by
  simp only [toJson, Json.variant, Json.depth, Json.depthFields]
  omega

mutual

/-- A well-formed program is read back with fuel for the depth of its written form. -/
theorem ofJsonWithin?_toJson (source : Json.Source) : ∀ (p : Program) (fuel : Nat), p.WellFormed →
    p.toJson.depth ≤ fuel → ofJsonWithin? source fuel p.toJson = some p
  | .call name args, fuel, h, hfuel => by
    -- one unit of fuel goes to the call, and the rest is enough for the arguments
    have hlt := (depthItems_lt_depth_call name args).trans_le hfuel
    obtain ⟨fuel, rfl⟩ := Nat.exists_eq_succ_of_ne_zero (Nat.ne_zero_of_lt hlt)
    have hargs := allOf?_toJsonAll source args fuel h (Nat.le_of_lt_succ hlt)
    have hread : ofJsonWithin? source (fuel + 1) (call name args).toJson =
        (Json.allOf? (ofJsonWithin? source fuel) (toJsonAll args)).bind
          fun args => some (.call name args) := by cases source <;> rfl
    rw [hread, hargs, Option.bind_some]
  | .compose steps, fuel, h, hfuel => by
    have hlt := (depthItems_lt_depth_compose steps).trans_le hfuel
    obtain ⟨fuel, rfl⟩ := Nat.exists_eq_succ_of_ne_zero (Nat.ne_zero_of_lt hlt)
    have hsteps := allOf?_toJsonAll source steps fuel h.2 (Nat.le_of_lt_succ hlt)
    show (Json.allOf? (ofJsonWithin? source fuel) (toJsonAll steps)).bind
      (fun steps => if steps.isEmpty then none else some (Program.compose steps)) = _
    rw [hsteps, Option.bind_some, if_neg (mt List.isEmpty_iff.1 h.1)]
  | .literal v, fuel, h, hfuel => by
    obtain ⟨fuel, rfl⟩ := Nat.exists_eq_succ_of_ne_zero
      (Nat.ne_zero_of_lt ((Nat.succ_pos _).trans_le hfuel))
    show (Value.ofJson? v.toJson).map Program.literal = _
    rw [Value.lossless.decode_encode v h, Option.map_some]

/-- Well-formed programs are read back with fuel for the depth of their written forms. -/
theorem allOf?_toJsonAll (source : Json.Source) : ∀ (ps : List Program) (fuel : Nat),
    ProperAll Value.WellFormed ps → depthItems (toJsonAll ps) ≤ fuel →
      Json.allOf? (ofJsonWithin? source fuel) (toJsonAll ps) = some ps
  | [], _, _, _ => rfl
  | p :: ps, fuel, h, hfuel => by
    rw [toJsonAll, depthItems, Nat.max_le] at hfuel
    rw [toJsonAll, Json.allOf?, ofJsonWithin?_toJson source p fuel h.1 hfuel.1,
      allOf?_toJsonAll source ps fuel h.2 hfuel.2]

end

/-- What is read as a program is well formed, whatever the fuel. -/
theorem wellFormed_of_ofJsonWithin? {source : Json.Source} {fuel : Nat} {j : Json} {p : Program}
    (h : ofJsonWithin? source fuel j = some p) : p.WellFormed := by
  -- on the fuel, since arguments and steps are read with one unit less
  induction fuel generalizing j p with
  | zero => cases h
  | succ fuel ih =>
    have hall : ∀ {j : Json} {ps : List Program},
        Json.list? (ofJsonWithin? source fuel) j = some ps → ProperAll Value.WellFormed ps := by
      intro j ps h
      refine properAll_iff.2 fun p hp => ?_
      obtain ⟨k, hk⟩ := Json.exists_of_mem_list? h p hp
      exact ih hk
    obtain ⟨⟨name, c?⟩, -, h⟩ := Option.bind_eq_some_iff.1 h
    split at h
    · obtain ⟨r, -, h⟩ := Option.bind_eq_some_iff.1 h
      obtain ⟨name, -, h⟩ := Option.bind_eq_some_iff.1 h
      obtain ⟨args, hargs, h⟩ := Option.bind_eq_some_iff.1 h
      obtain ⟨k, -, hk⟩ := Option.bind_eq_some_iff.1 hargs
      cases h
      exact hall hk
    · obtain ⟨steps, hsteps, h⟩ := Option.bind_eq_some_iff.1 h
      split at h
      · cases h
      · next hne =>
        cases h
        exact ⟨mt List.isEmpty_iff.2 hne, hall hsteps⟩
    · obtain ⟨v, hv, rfl⟩ := Option.map_eq_some_iff.1 h
      exact Value.lossless.sound _ v hv
    · cases h

/-- Programs are read back, and what is read is well formed. -/
theorem lossless (source : Json.Source) : Lossless WellFormed toJson (ofJson? source) where
  plain := plain_toJson
  decode_encode p h := ofJsonWithin?_toJson source p p.toJson.depth h le_rfl
  sound _ _ h := wellFormed_of_ofJsonWithin? h

-- in a text, the fields of a call may be listed without their names
example : (Json.ofText? "\x7b\"Primitive\": [\"identity\", []]\x7d").bind (ofJson? .text) =
    some .identity := by decide +kernel

-- in a document they may not
example : ofJson? .document (.variant "Primitive" (.array [.text "identity", .array []])) = none :=
  rfl

end Program

end GridRepair
