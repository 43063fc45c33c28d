/-
# Texts of JSON values

Reading the text of a value gives back the value, if its numbers are integers and its strings are
strings (`Json.Plain`).  The text is first described as a list of characters (`Json.chars`), which
is what the writer appends.  The reader then takes such characters off the front of any input that
goes on with a comma or a closing bracket, and leaves the rest: number by number, string by string,
and by induction for arrays and objects (`Json.value_chars`).

Two units for each character are enough fuel, and a limit on the nesting that the value keeps is not hit
(`Json.read?_render`).  A text that is read for a type goes down to `Json.maxDepth` levels, so a value that
is not deeper is read whole (`Json.ofText?_render_of_depth_le`).
-/
import Mathlib.Data.List.Basic
import GridRepair.Json.Decode
import GridRepair.Json.Printer
import GridRepair.Json.Reader

namespace GridRepair

namespace Json

/-! ## Characters of a text -/

/-- The characters that stand for a character inside a string. -/
def escapeChars (c : Char) : List Char :=
  if c = '"' then ['\\', '"']
  else if c = '\\' then ['\\', '\\']
  else if c.toNat < 0x20 then
    ['\\', 'u', '0', '0', hexDigit (c.toNat / 16), hexDigit (c.toNat % 16)]
  else [c]

/-- The characters of a string after its opening quote. -/
def quoteChars (s : String) : List Char := s.toList.flatMap escapeChars ++ ['"']

mutual

/-- The characters of the text of a value. -/
def chars : Json → List Char
  | .null => ['n', 'u', 'l', 'l']
  | .bool true => ['t', 'r', 'u', 'e']
  | .bool false => ['f', 'a', 'l', 's', 'e']
  | .number n => n.render.toList
  | .text s => '"' :: quoteChars s
  | .array items => '[' :: (itemChars items ++ [']'])
  | .object fields => '\x7b' :: (fieldChars fields ++ ['\x7d'])
  | .broken => ['n', 'u', 'l', 'l']

/-- The characters of items with commas between them. -/
def itemChars : List Json → List Char
  | [] => []
  | [j] => chars j
  | j :: k :: js => chars j ++ ',' :: itemChars (k :: js)

/-- The characters of fields with commas between them. -/
def fieldChars : List (String × Json) → List Char
  | [] => []
  | [(name, j)] => '"' :: (quoteChars name ++ ':' :: chars j)
  | (name, j) :: field :: fields =>
    '"' :: (quoteChars name ++ ':' :: (chars j ++ ',' :: fieldChars (field :: fields)))

end

theorem toList_escape (out : String) (c : Char) :
    (escape out c).toList = out.toList ++ escapeChars c := by
  rw [escape, escapeChars]
  split
  · rw [String.toList_append]
    rfl
  · split
    · rw [String.toList_append]
      rfl
    · split
      · rw [String.toList_push, String.toList_push, String.toList_append, List.append_assoc,
          List.append_assoc]
        rfl
      · rw [String.toList_push]

theorem toList_quote (out s : String) : (quote out s).toList = out.toList ++ '"' :: quoteChars s := by
  have hfold : ∀ (cs : List Char) (out : String),
      (cs.foldl escape out).toList = out.toList ++ cs.flatMap escapeChars := by
    intro cs
    induction cs with
    | nil => simp
    | cons c cs ih =>
      intro out
      rw [List.foldl_cons, ih, toList_escape, List.flatMap_cons, List.append_assoc]
  rw [quote, String.toList_push, hfold, String.toList_push, quoteChars]
  simp

mutual

/-- Writing a value appends its characters. -/
theorem toList_write : ∀ (j : Json) (out : String), (write out j).toList = out.toList ++ chars j
  | .null, out => by
    rw [write, String.toList_append, chars]
    rfl
  | .bool true, out => by
    rw [write, String.toList_append, chars]
    rfl
  | .bool false, out => by
    rw [write, String.toList_append, chars]
    rfl
  | .number n, out => by rw [write, String.toList_append, chars]
  | .text s, out => by rw [write, toList_quote, chars]
  | .array items, out => by
    rw [write, String.toList_push, toList_writeItems items, String.toList_push, chars]
    simp
  | .object fields, out => by
    rw [write, String.toList_push, toList_writeFields fields, String.toList_push, chars]
    simp
  | .broken, out => by
    rw [write, String.toList_append, chars]
    rfl

/-- Writing items appends their characters. -/
theorem toList_writeItems : ∀ (js : List Json) (out : String),
    (writeItems true out js).toList = out.toList ++ itemChars js
  | [], out => by rw [writeItems, itemChars, List.append_nil]
  | [j], out => by
    rw [writeItems, if_pos rfl, writeItems, toList_write j, itemChars]
  | j :: k :: js, out => by
    -- a comma, and then the second item is written as a first one is
    have hsecond : ∀ out, writeItems false out (k :: js) = writeItems true (out.push ',') (k :: js) :=
      fun _ => rfl
    rw [writeItems, if_pos rfl, hsecond, toList_writeItems (k :: js), String.toList_push,
      toList_write j, itemChars]
    simp

/-- Writing fields appends their characters. -/
theorem toList_writeFields : ∀ (fields : List (String × Json)) (out : String),
    (writeFields true out fields).toList = out.toList ++ fieldChars fields
  | [], out => by rw [writeFields, fieldChars, List.append_nil]
  | [(name, j)], out => by
    rw [writeFields, if_pos rfl, writeFields, toList_write j, String.toList_push, toList_quote,
      fieldChars]
    simp
  | (name, j) :: field :: fields, out => by
    have hsecond : ∀ out, writeFields false out (field :: fields) =
        writeFields true (out.push ',') (field :: fields) := by
      obtain ⟨name', j'⟩ := field
      exact fun _ => rfl
    rw [writeFields, if_pos rfl, hsecond, toList_writeFields (field :: fields), String.toList_push,
      toList_write j, String.toList_push, toList_quote, fieldChars]
    simp

end

/-- The characters of the text of a value. -/
theorem toList_render (j : Json) : j.render.toList = chars j := by
  rw [render, toList_write]
  rfl

/-! ## Plain values -/

mutual

/-- Every number is an integer, and every string is one. -/
def Plain : Json → Prop
  | .number n => ∃ negative digits, n = .integer negative digits
  | .array items => PlainItems items
  | .object fields => PlainFields fields
  | .broken => False
  | _ => True

/-- Every item is plain. -/
def PlainItems : List Json → Prop
  | [] => True
  | j :: js => Plain j ∧ PlainItems js

/-- Every field is plain. -/
def PlainFields : List (String × Json) → Prop
  | [] => True
  | (_, j) :: fields => Plain j ∧ PlainFields fields

end

/-- A list is plain when its items are. -/
theorem plainItems_iff {items : List Json} : PlainItems items ↔ ∀ j ∈ items, j.Plain := by
  induction items with
  | nil => simp [PlainItems]
  | cons j js ih => rw [PlainItems, ih, List.forall_mem_cons]

namespace Reader

/-! ## Reading numbers -/

/-- The input goes on with a comma or a closing bracket, or it ends. -/
def Follows (rest : List Char) : Prop := ∀ c ∈ rest.head?, c = ',' ∨ c = ']' ∨ c = '\x7d'

/-- What follows a value goes on with no digit. -/
theorem Follows.digits {rest : List Char} (h : Follows rest) :
    rest.takeWhile Char.isDigit = [] ∧ rest.dropWhile Char.isDigit = rest := by
  cases rest with
  | nil => exact ⟨rfl, rfl⟩
  | cons c cs =>
    have hdigit : c.isDigit = false := by
      rcases h c rfl with rfl | rfl | rfl <;> rfl
    rw [List.takeWhile_cons, List.dropWhile_cons, hdigit]
    exact ⟨rfl, rfl⟩

/-- What follows a value goes on with no point. -/
theorem Follows.fraction {rest : List Char} (h : Follows rest) :
    fraction rest = some (none, rest) := by
  cases rest with
  | nil => rfl
  | cons c cs => rcases h c rfl with rfl | rfl | rfl <;> rfl

/-- What follows a value goes on with no exponent. -/
theorem Follows.exponent {rest : List Char} (h : Follows rest) :
    exponent rest = some (none, rest) := by
  cases rest with
  | nil => rfl
  | cons c cs => rcases h c rfl with rfl | rfl | rfl <;> rfl

/-- The digits of a number write that number. -/
theorem natOf_toDigits (n : Nat) : natOf (Nat.toDigits 10 n) = n := by
  have h := Nat.ofDigitChars_ten_toDigits (n := n)
  rw [Nat.ofDigitChars_eq_foldl] at h
  simpa only [natOf, Nat.mul_comm] using h

/-- All characters of a written number are digits. -/
theorem isDigit_of_mem_toDigits {n : Nat} {c : Char} (h : c ∈ Nat.toDigits 10 n) :
    c.isDigit = true :=
  Nat.isDigit_of_mem_toDigits (by decide) (by decide) h

/-- Only zero is written with a leading zero. -/
theorem eq_zero_of_head?_toDigits {n : Nat} (h : (Nat.toDigits 10 n).head? = some '0') : n = 0 := by
  induction n using Nat.strongRecOn with
  | ind n ih =>
    rcases Nat.lt_or_ge n 10 with hlt | hge
    · rw [Nat.toDigits_of_lt_base hlt, List.head?_cons, Option.some.injEq] at h
      exact Nat.digitChar_eq_zero.1 h
    · rw [Nat.toDigits_of_base_le (by decide) hge,
        List.head?_append_of_ne_nil _ Nat.toDigits_ne_nil] at h
      have hrest := ih (n / 10) (by omega) h
      omega

/-- The digits of a number are read as this number. -/
theorem unsigned_toDigits (negative : Bool) (n : Nat) {rest : List Char} (h : Follows rest) :
    unsigned negative (Nat.toDigits 10 n ++ rest) = some (.integer negative n, rest) := by
  have hdigits : digits? (Nat.toDigits 10 n ++ rest) = some (Nat.toDigits 10 n, rest) := by
    rw [digits?, List.takeWhile_append_of_pos fun _ => isDigit_of_mem_toDigits,
      List.dropWhile_append_of_pos fun _ => isDigit_of_mem_toDigits, h.digits.1, h.digits.2,
      List.append_nil]
    simp [Nat.toDigits_ne_nil]
  have hzero : ¬ ((Nat.toDigits 10 n).length ≠ 1 ∧ (Nat.toDigits 10 n).head? = some '0') := by
    rintro ⟨hlength, hhead⟩
    rw [eq_zero_of_head?_toDigits hhead, Nat.toDigits_zero] at hlength
    exact hlength rfl
  simp only [unsigned, hdigits, Option.bind_eq_bind, Option.bind_some, if_neg hzero, h.fraction,
    h.exponent, natOf_toDigits]

/-- A number starts with a digit. -/
theorem exists_toDigits_eq_cons (n : Nat) :
    ∃ c cs, Nat.toDigits 10 n = c :: cs ∧ c.isDigit = true := by
  obtain ⟨c, cs, hcons⟩ := List.exists_cons_of_ne_nil (Nat.toDigits_ne_nil (b := 10) (n := n))
  refine ⟨c, cs, hcons, isDigit_of_mem_toDigits (n := n) ?_⟩
  rw [hcons]
  exact List.mem_cons_self

/-- The characters of an integer. -/
theorem toList_render_integer (negative : Bool) (n : Nat) :
    (Numeral.integer negative n).render.toList =
      if negative then '-' :: Nat.toDigits 10 n else Nat.toDigits 10 n := by
  rw [Numeral.render, String.toList_append, Nat.toString_eq_repr, Nat.toList_repr]
  cases negative <;> rfl

/-- An integer is read as a number. -/
theorem number_render (negative : Bool) (n : Nat) {rest : List Char} (h : Follows rest) :
    number ((Numeral.integer negative n).render.toList ++ rest) =
      some (.number (.integer negative n), rest) := by
  have hunsigned := unsigned_toDigits negative n h
  rw [toList_render_integer]
  cases negative with
  | true =>
    show number ('-' :: (Nat.toDigits 10 n ++ rest)) = _
    rw [number, hunsigned, Option.map_some]
  | false =>
    obtain ⟨c, cs, hcons, hdigit⟩ := exists_toDigits_eq_cons n
    have hsign : c ≠ '-' := by
      rintro rfl
      cases hdigit
    rw [hcons] at hunsigned
    show number (Nat.toDigits 10 n ++ rest) = _
    rw [hcons, List.cons_append, number]
    · rw [← List.cons_append, hunsigned, Option.map_some]
    · exact fun _ heq => hsign (List.cons.inj heq).1

/-! ## Reading strings -/

/-- The escape of a control character has its code. -/
theorem hex?_control {n : Nat} (h : n < 0x20) :
    hex? ['0', '0', hexDigit (n / 16), hexDigit (n % 16)] = some n := by
  have hall : ∀ n < 0x20, hex? ['0', '0', hexDigit (n / 16), hexDigit (n % 16)] = some n := by
    decide
  exact hall n h

/-- A short escape is read as the code it stands for. -/
theorem units_escape {e : Char} {n : Nat} (he : e ≠ 'u') (h : escape? e = some n) (acc : List Nat)
    (rest : List Char) : units acc ('\\' :: e :: rest) = units (n :: acc) rest := by
  rw [units.eq_3 _ _ _ fun _ _ _ _ _ heq => absurd heq he, h]

/-- An escaped character is read as its code. -/
theorem units_escapeChars (acc : List Nat) (c : Char) (rest : List Char) :
    units acc (escapeChars c ++ rest) = units (c.toNat :: acc) rest := by
  rw [escapeChars]
  split
  · next hquote =>
    subst hquote
    exact units_escape (by decide) rfl acc rest
  · next hquote =>
    split
    · next hbackslash =>
      subst hbackslash
      exact units_escape (by decide) rfl acc rest
    · next hbackslash =>
      split
      · next hcontrol =>
        show units acc ('\\' :: 'u' :: '0' :: '0' :: hexDigit (c.toNat / 16) ::
          hexDigit (c.toNat % 16) :: rest) = _
        rw [units, hex?_control hcontrol]
      · next hcontrol =>
        rw [List.singleton_append, units.eq_4 _ _ _ hquote
          (fun _ _ _ _ _ heq => absurd heq hbackslash) (fun _ _ heq => absurd heq hbackslash),
          if_neg hcontrol]

/-- An escaped string is read as its codes, up to the closing quote. -/
theorem units_flatMap (acc : List Nat) (cs rest : List Char) :
    units acc (cs.flatMap escapeChars ++ '"' :: rest) =
      some ((cs.map Char.toNat).reverse ++ acc, rest) := by
  induction cs generalizing acc with
  | nil => rw [List.flatMap_nil, List.nil_append, units]; rfl
  | cons c cs ih =>
    rw [List.flatMap_cons, List.append_assoc, units_escapeChars, ih, List.map_cons,
      List.reverse_cons, List.append_assoc]
    rfl

/-- The code of a character is no half of a pair. -/
theorem not_half (c : Char) : isLow c.toNat = false ∧ isHigh c.toNat = false := by
  have hvalid : c.toNat < 0xd800 ∨ (0xdfff < c.toNat ∧ c.toNat < 0x110000) := c.valid
  simp only [isLow, isHigh, Bool.and_eq_false_iff, decide_eq_false_iff_not]
  omega

/-- Codes of characters stand for these characters. -/
theorem characters_map (acc cs : List Char) :
    characters acc (cs.map Char.toNat) = some (cs.reverse ++ acc) := by
  induction cs generalizing acc with
  | nil => rw [List.map_nil, characters]; rfl
  | cons c cs ih =>
    obtain ⟨hlow, hhigh⟩ := not_half c
    have hstep : (c :: cs).reverse ++ acc = cs.reverse ++ c :: acc := by
      rw [List.reverse_cons, List.append_assoc]
      rfl
    cases cs with
    | nil =>
      rw [List.map_singleton, characters, hlow, hhigh, Char.ofNat_toNat]
      rfl
    | cons d ds =>
      rw [List.map_cons, List.map_cons, characters, hlow, hhigh, Char.ofNat_toNat, hstep,
        ← List.map_cons, ← ih]
      rfl

/-- A quoted string is read as the string. -/
theorem string_quoteChars (s : String) (rest : List Char) :
    string (quoteChars s ++ rest) = some (some s, rest) := by
  rw [quoteChars, List.append_assoc, List.singleton_append, string, units_flatMap, List.append_nil,
    Option.map_some]
  simp only [← List.map_reverse, characters_map, List.reverse_reverse, List.append_nil,
    Option.map_some, String.ofList_toList]

/-! ## Reading values -/

/-- Input that starts with no blank is left as it is. -/
theorem skip_cons {c : Char} (h : isBlank c = false) (cs : List Char) : skip (c :: cs) = c :: cs := by
  rw [skip, List.dropWhile_cons, h]
  rfl

/-- Where a number starts, a number is read. -/
theorem value_number {c : Char} (h : c = '-' ∨ c.isDigit = true) (fuel depth : Nat)
    (cs : List Char) : value (fuel + 1) depth (c :: cs) = number (c :: cs) := by
  rw [value.eq_def]
  -- nothing else starts with a sign or a digit
  simp only
  split <;> simp_all

/-- An array that is not closed at once is read item by item. -/
theorem value_array {cs : List Char} (hskip : skip cs = cs) (hopen : ∀ rest, cs ≠ ']' :: rest)
    (fuel depth : Nat) : value (fuel + 1) (depth + 1) ('[' :: cs) = items fuel depth [] cs := by
  rw [value, hskip]
  split
  · next rest => exact absurd rfl (hopen rest)
  · rfl

/-- An object whose first field follows is read field by field. -/
theorem value_object (fuel depth : Nat) (cs : List Char) :
    value (fuel + 1) (depth + 1) ('\x7b' :: '"' :: cs) = members fuel depth [] ('"' :: cs) := by
  rw [value, skip_cons rfl]
  rfl

/-- The text of a plain value starts with no blank, and not as an array ends. -/
theorem exists_chars_eq_cons {j : Json} (h : j.Plain) :
    ∃ c cs, chars j = c :: cs ∧ isBlank c = false ∧ c ≠ ']' := by
  cases j with
  | null => exact ⟨_, _, rfl, rfl, by decide⟩
  | bool b => cases b <;> exact ⟨_, _, rfl, rfl, by decide⟩
  | number n =>
    obtain ⟨negative, digits, rfl⟩ := h
    rw [chars, toList_render_integer]
    cases negative with
    | true => exact ⟨_, _, rfl, rfl, by decide⟩
    | false =>
      obtain ⟨c, cs, hcons, hdigit⟩ := exists_toDigits_eq_cons digits
      refine ⟨c, cs, hcons, ?_, ?_⟩
      · rw [isBlank]
        by_contra hblank
        simp only [Bool.not_eq_false, Bool.or_eq_true, decide_eq_true_eq] at hblank
        rcases hblank with ((rfl | rfl) | rfl) | rfl <;> cases hdigit
      · rintro rfl
        cases hdigit
  | text s => exact ⟨_, _, rfl, rfl, by decide⟩
  | array items => exact ⟨_, _, rfl, rfl, by decide⟩
  | object fields => exact ⟨_, _, rfl, rfl, by decide⟩
  | broken => cases h

/-- There is no blank before a value. -/
theorem skip_chars {j : Json} (h : j.Plain) (rest : List Char) :
    skip (chars j ++ rest) = chars j ++ rest := by
  obtain ⟨c, cs, hcons, hblank, -⟩ := exists_chars_eq_cons h
  rw [hcons, List.cons_append, skip_cons hblank]

/-- The first item is at the front. -/
theorem exists_itemChars_eq (j : Json) (js : List Json) :
    ∃ rest, itemChars (j :: js) = chars j ++ rest := by
  cases js with
  | nil => exact ⟨[], by rw [itemChars, List.append_nil]⟩
  | cons k js => exact ⟨_, by rw [itemChars]⟩

/-- There is no blank before the items of an array. -/
theorem skip_itemChars {j : Json} {js : List Json} (h : j.Plain) (rest : List Char) :
    skip (itemChars (j :: js) ++ rest) = itemChars (j :: js) ++ rest := by
  obtain ⟨after, hafter⟩ := exists_itemChars_eq j js
  rw [hafter, List.append_assoc, skip_chars h]

/-- The first field is at the front. -/
theorem exists_fieldChars_eq (field : String × Json) (fields : List (String × Json)) :
    ∃ rest, fieldChars (field :: fields) = '"' :: rest := by
  obtain ⟨name, j⟩ := field
  cases fields with
  | nil => exact ⟨_, by rw [fieldChars]⟩
  | cons field fields => exact ⟨_, by rw [fieldChars]⟩

/-- A field as the reader collects it. -/
def asRead (field : String × Json) : Option String × Json := (some field.1, field.2)

/-- The collected fields make the object. -/
theorem close_asRead (fields : List (String × Json)) :
    close (fields.map asRead).reverse = .object fields := by
  have hnames : ∀ f : Option String × Json → Option (String × Json),
      (∀ field, f (asRead field) = some field) → (fields.map asRead).mapM f = some fields := by
    intro f hf
    induction fields with
    | nil => rfl
    | cons field fields ih =>
      rw [List.map_cons, List.mapM_cons, hf, ih]
      rfl
  rw [close, List.reverse_reverse, hnames]
  exact fun field => rfl

mutual

/-- The text of a plain value is read as the value, and what follows is left. -/
theorem value_chars : ∀ (j : Json) (fuel depth : Nat) (rest : List Char), j.Plain →
    2 * (chars j).length ≤ fuel → j.depth ≤ depth → Follows rest →
    value fuel depth (chars j ++ rest) = some (j, rest)
  | j, 0, _, _, hplain, hfuel, _, _ => by
    obtain ⟨c, cs, hcons, -⟩ := exists_chars_eq_cons hplain
    rw [hcons, List.length_cons] at hfuel
    omega
  | .null, fuel + 1, _, _, _, _, _, _ => rfl
  | .bool true, fuel + 1, _, _, _, _, _, _ => rfl
  | .bool false, fuel + 1, _, _, _, _, _, _ => rfl
  | .number n, fuel + 1, depth, rest, hplain, _, _, hrest => by
    obtain ⟨negative, digits, rfl⟩ := hplain
    have hnumber := number_render negative digits hrest
    rw [chars]
    rw [toList_render_integer] at hnumber ⊢
    cases negative with
    | true => exact (value_number (.inl rfl) fuel depth _).trans hnumber
    | false =>
      obtain ⟨c, cs, hcons, hdigit⟩ := exists_toDigits_eq_cons digits
      simp only [hcons, Bool.false_eq_true, if_false] at hnumber ⊢
      exact (value_number (.inr hdigit) fuel depth _).trans hnumber
  | .text s, fuel + 1, depth, rest, _, _, _, _ => by
    rw [chars, List.cons_append, value, string_quoteChars]
    rfl
  | .array [], fuel + 1, 0, _, _, _, hdepth, _ => by
    rw [Json.depth] at hdepth
    omega
  | .array [], fuel + 1, depth + 1, rest, _, _, _, _ => rfl
  | .array (j :: js), fuel + 1, 0, _, _, _, hdepth, _ => by
    rw [Json.depth] at hdepth
    omega
  | .array (j :: js), fuel + 1, depth + 1, rest, hplain, hfuel, hdepth, _ => by
    rw [Plain] at hplain
    rw [Json.depth] at hdepth
    rw [chars, List.length_cons, List.length_append, List.length_singleton] at hfuel
    have hopen : ∀ rest', itemChars (j :: js) ++ ']' :: rest ≠ ']' :: rest' := by
      obtain ⟨after, hafter⟩ := exists_itemChars_eq j js
      obtain ⟨c, cs, hcons, -, hc⟩ := exists_chars_eq_cons hplain.1
      rw [hafter, hcons]
      exact fun rest' heq => hc (List.cons.inj heq).1
    have hitems := items_chars (j :: js) fuel depth [] rest (List.cons_ne_nil j js) hplain
      (by omega) (by omega)
    rw [chars, List.cons_append, List.append_assoc, List.singleton_append,
      value_array (skip_itemChars hplain.1 _) hopen, hitems]
    rfl
  | .object [], fuel + 1, 0, _, _, _, hdepth, _ => by
    rw [Json.depth] at hdepth
    omega
  | .object [], fuel + 1, depth + 1, rest, _, _, _, _ => rfl
  | .object (field :: fields), fuel + 1, 0, _, _, _, hdepth, _ => by
    rw [Json.depth] at hdepth
    omega
  | .object (field :: fields), fuel + 1, depth + 1, rest, hplain, hfuel, hdepth, _ => by
    rw [Plain] at hplain
    rw [Json.depth] at hdepth
    rw [chars, List.length_cons, List.length_append, List.length_singleton] at hfuel
    have hmembers := members_chars (field :: fields) fuel depth [] rest
      (List.cons_ne_nil field fields) hplain (by omega) (by omega)
    obtain ⟨after, hafter⟩ := exists_fieldChars_eq field fields
    rw [chars, List.cons_append, List.append_assoc, List.singleton_append, hafter,
      List.cons_append, value_object, ← List.cons_append, ← hafter, hmembers, List.append_nil,
      close_asRead]
  | .broken, _, _, _, hplain, _, _, _ => by cases hplain

/-- The items of an array are read one after another. -/
theorem items_chars : ∀ (js : List Json) (fuel depth : Nat) (acc : List Json) (rest : List Char),
    js ≠ [] → PlainItems js → 2 * (itemChars js).length + 1 ≤ fuel → depthItems js ≤ depth →
    items fuel depth acc (itemChars js ++ ']' :: rest) = some (.array (acc.reverse ++ js), rest)
  | [], _, _, _, _, hne, _, _, _ => absurd rfl hne
  | _, 0, _, _, _, _, _, hfuel, _ => by omega
  | [j], fuel + 1, depth, acc, rest, _, hplain, hfuel, hdepth => by
    rw [itemChars] at hfuel
    rw [depthItems] at hdepth
    have hvalue := value_chars j fuel depth (']' :: rest) hplain.1 (by omega) (by omega)
      (by rintro c ⟨⟩; exact .inr (.inl rfl))
    rw [itemChars, items, hvalue]
    simp only [skip_cons (show isBlank ']' = false from rfl), List.reverse_cons]
  | j :: k :: js, fuel + 1, depth, acc, rest, _, hplain, hfuel, hdepth => by
    rw [itemChars, List.length_append, List.length_cons] at hfuel
    rw [depthItems] at hdepth
    have hvalue := value_chars j fuel depth (',' :: (itemChars (k :: js) ++ ']' :: rest)) hplain.1
      (by omega) (by omega) (by rintro c ⟨⟩; exact .inl rfl)
    have hrest := items_chars (k :: js) fuel depth (j :: acc) rest (List.cons_ne_nil k js) hplain.2
      (by omega) (by omega)
    rw [itemChars, List.append_assoc, List.cons_append, items, hvalue]
    simp only [skip_cons (show isBlank ',' = false from rfl), skip_itemChars hplain.2.1, hrest]
    rw [List.reverse_cons, List.append_assoc]
    rfl

/-- The fields of an object are read one after another. -/
theorem members_chars : ∀ (fields : List (String × Json)) (fuel depth : Nat)
    (acc : List (Option String × Json)) (rest : List Char), fields ≠ [] → PlainFields fields →
    2 * (fieldChars fields).length + 1 ≤ fuel → depthFields fields ≤ depth →
    members fuel depth acc (fieldChars fields ++ '\x7d' :: rest) =
      some (close ((fields.map asRead).reverse ++ acc), rest)
  | [], _, _, _, _, hne, _, _, _ => absurd rfl hne
  | _, 0, _, _, _, _, _, hfuel, _ => by omega
  | [(name, j)], fuel + 1, depth, acc, rest, _, hplain, hfuel, hdepth => by
    rw [fieldChars, List.length_cons, List.length_append, List.length_cons] at hfuel
    rw [depthFields] at hdepth
    have hvalue := value_chars j fuel depth ('\x7d' :: rest) hplain.1 (by omega) (by omega)
      (by rintro c ⟨⟩; exact .inr (.inr rfl))
    rw [fieldChars, List.cons_append, List.append_assoc, List.cons_append, members,
      string_quoteChars]
    simp only [skip_cons (show isBlank ':' = false from rfl), skip_chars hplain.1, hvalue,
      skip_cons (show isBlank '\x7d' = false from rfl)]
    rfl
  | (name, j) :: field :: fields, fuel + 1, depth, acc, rest, _, hplain, hfuel, hdepth => by
    rw [fieldChars, List.length_cons, List.length_append, List.length_cons, List.length_append,
      List.length_cons] at hfuel
    rw [depthFields] at hdepth
    have hvalue := value_chars j fuel depth (',' :: (fieldChars (field :: fields) ++ '\x7d' :: rest))
      hplain.1 (by omega) (by omega) (by rintro c ⟨⟩; exact .inl rfl)
    have hrest := members_chars (field :: fields) fuel depth ((some name, j) :: acc) rest
      (List.cons_ne_nil field fields) hplain.2 (by omega) (by omega)
    obtain ⟨after, hafter⟩ := exists_fieldChars_eq field fields
    have hskip : skip (fieldChars (field :: fields) ++ '\x7d' :: rest) =
        fieldChars (field :: fields) ++ '\x7d' :: rest := by
      rw [hafter, List.cons_append, skip_cons rfl]
    have hfirst : (((name, j) :: field :: fields).map asRead).reverse ++ acc =
        ((field :: fields).map asRead).reverse ++ (some name, j) :: acc := by
      rw [List.map_cons, List.reverse_cons, List.append_assoc]
      rfl
    rw [hfirst, ← hrest, fieldChars, List.cons_append, List.append_assoc, List.cons_append,
      List.append_assoc, List.cons_append, members, string_quoteChars]
    simp only [skip_cons (show isBlank ':' = false from rfl), skip_chars hplain.1, hvalue,
      skip_cons (show isBlank ',' = false from rfl), hskip]

end

end Reader

/-! ## Reading texts -/

mutual

/-- Each level of nesting takes a character of the text. -/
theorem depth_le_length : ∀ j : Json, j.Plain → j.depth ≤ (chars j).length
  | .null, _ => Nat.zero_le _
  | .bool _, _ => Nat.zero_le _
  | .number n, _ => Nat.zero_le _
  | .text s, _ => Nat.zero_le _
  | .array items, h => by
    rw [Plain] at h
    have hitems := depthItems_le_length items h
    rw [depth, chars, List.length_cons, List.length_append]
    omega
  | .object fields, h => by
    rw [Plain] at h
    have hfields := depthFields_le_length fields h
    rw [depth, chars, List.length_cons, List.length_append]
    omega
  | .broken, h => by cases h

/-- Each level of nesting of an item takes a character. -/
theorem depthItems_le_length : ∀ js : List Json, PlainItems js → depthItems js ≤ (itemChars js).length
  | [], _ => Nat.le_refl 0
  | [j], h => by
    have hfirst := depth_le_length j h.1
    rw [depthItems, depthItems, itemChars]
    omega
  | j :: k :: js, h => by
    have hfirst := depth_le_length j h.1
    have hrest := depthItems_le_length (k :: js) h.2
    rw [depthItems, itemChars, List.length_append, List.length_cons]
    omega

/-- Each level of nesting of a field takes a character. -/
theorem depthFields_le_length : ∀ fields : List (String × Json), PlainFields fields →
    depthFields fields ≤ (fieldChars fields).length
  | [], _ => Nat.le_refl 0
  | [(name, j)], h => by
    have hfirst := depth_le_length j h.1
    rw [depthFields, depthFields, fieldChars, List.length_cons, List.length_append, List.length_cons]
    omega
  | (name, j) :: field :: fields, h => by
    have hfirst := depth_le_length j h.1
    have hrest := depthFields_le_length (field :: fields) h.2
    rw [depthFields, fieldChars, List.length_cons, List.length_append, List.length_cons,
      List.length_append, List.length_cons]
    omega

end

/-- The text of a plain value is read as the value, within a limit on its nesting. -/
theorem read?_render {j : Json} (h : j.Plain) {limit : Nat} (hlimit : j.depth ≤ limit) :
    read? limit j.render = some j := by
  have hskip := Reader.skip_chars h []
  have hvalue := Reader.value_chars j (2 * (chars j).length + 2) limit [] h (by omega) hlimit nofun
  rw [List.append_nil] at hskip hvalue
  rw [read?, toList_render]
  simp only [hskip, hvalue]
  rfl

mutual

/-- A value that is not deeper is left as it is. -/
theorem within_of_depth_le : ∀ (j : Json) (limit : Nat), j.depth ≤ limit → j.within limit = j
  | .array items, 0, h => absurd h (Nat.not_succ_le_zero _)
  | .array items, limit + 1, h => by
    rw [within, withinItems_of_depth_le items limit (Nat.le_of_succ_le_succ h)]
  | .object fields, 0, h => absurd h (Nat.not_succ_le_zero _)
  | .object fields, limit + 1, h => by
    rw [within, withinFields_of_depth_le fields limit (Nat.le_of_succ_le_succ h)]
  | .null, _, _ => by rw [within] <;> exact nofun
  | .bool _, _, _ => by rw [within] <;> exact nofun
  | .number _, _, _ => by rw [within] <;> exact nofun
  | .text _, _, _ => by rw [within] <;> exact nofun
  | .broken, _, _ => by rw [within] <;> exact nofun

/-- Items that are not deeper are left as they are. -/
theorem withinItems_of_depth_le : ∀ (js : List Json) (limit : Nat), depthItems js ≤ limit →
    withinItems limit js = js
  | [], _, _ => rfl
  | j :: js, limit, h => by
    rw [depthItems, Nat.max_le] at h
    rw [withinItems, within_of_depth_le j limit h.1, withinItems_of_depth_le js limit h.2]

/-- Fields that are not deeper are left as they are. -/
theorem withinFields_of_depth_le : ∀ (fields : List (String × Json)) (limit : Nat),
    depthFields fields ≤ limit → withinFields limit fields = fields
  | [], _, _ => rfl
  | (name, j) :: fields, limit, h => by
    rw [depthFields, Nat.max_le] at h
    rw [withinFields, within_of_depth_le j limit h.1, withinFields_of_depth_le fields limit h.2]

end

/-- The text of a plain value is read as the value, down to the levels that texts are read to. -/
theorem ofText?_render {j : Json} (h : j.Plain) : ofText? j.render = some (j.within maxDepth) := by
  have hdepth : j.depth ≤ j.render.length := by
    rw [← String.length_toList, toList_render]
    exact depth_le_length j h
  rw [ofText?, read?_render h hdepth, Option.map_some]

/-- The text of a plain value that is not deeper is read as the value. -/
theorem ofText?_render_of_depth_le {j : Json} (h : j.Plain) (hdepth : j.depth ≤ maxDepth) :
    ofText? j.render = some j := by
  rw [ofText?_render h, within_of_depth_le j maxDepth hdepth]

end Json

end GridRepair
