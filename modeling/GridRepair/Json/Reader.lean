/-
# Reading JSON

`Json.read?` reads a whole text as one value, with blanks around it and nothing else.  The
nesting of arrays and objects may be limited.  The reader walks over the characters once;
every call takes one unit of fuel, and two units for each character are enough.

Values are nested at most `maxDepth` levels deep.  `Json.ofText?` reads a text for a type: what is
nested further down has a place but no value, so the text can be read if the type passes over it.
`Json.document?` reads a text whose values all have to exist, and in which the last one of repeated
fields counts.
-/
import GridRepair.Json.Basic

namespace GridRepair

namespace Json

namespace Reader

/-- The characters that may stand between tokens. -/
def isBlank (c : Char) : Bool := c = ' ' || c = '\n' || c = '\t' || c = '\r'

/-- The rest after leading blanks. -/
def skip (cs : List Char) : List Char := cs.dropWhile isBlank

/-! ## Strings -/

/-- The value of a hexadecimal digit. -/
def hexDigit? (c : Char) : Option Nat :=
  if '0' ≤ c ∧ c ≤ '9' then some (c.toNat - '0'.toNat)
  else if 'a' ≤ c ∧ c ≤ 'f' then some (c.toNat - 'a'.toNat + 10)
  else if 'A' ≤ c ∧ c ≤ 'F' then some (c.toNat - 'A'.toNat + 10)
  else none

/-- The number written by hexadecimal digits. -/
def hex? (cs : List Char) : Option Nat :=
  cs.foldl (fun n? c => n?.bind fun n => (hexDigit? c).map fun d => n * 16 + d) (some 0)

/-- The character a short escape stands for. -/
def escape? : Char → Option Nat
  | '"' => some 0x22
  | '\\' => some 0x5c
  | '/' => some 0x2f
  | 'b' => some 0x08
  | 'f' => some 0x0c
  | 'n' => some 0x0a
  | 'r' => some 0x0d
  | 't' => some 0x09
  | _ => none

/-- The code units of a string up to its closing quote, last one first, and the rest.  Long
escapes give units of sixteen bits, other characters one unit each. -/
def units : List Nat → List Char → Option (List Nat × List Char)
  | acc, '"' :: rest => some (acc, rest)
  | acc, '\\' :: 'u' :: a :: b :: c :: d :: rest =>
    match hex? [a, b, c, d] with
    | some n => units (n :: acc) rest
    | none => none
  | acc, '\\' :: e :: rest =>
    match escape? e with
    | some n => units (n :: acc) rest
    | none => none
  | acc, c :: rest => if c.toNat < 0x20 then none else units (c.toNat :: acc) rest
  | _, [] => none

/-- First halves of pairs of units. -/
def isHigh (n : Nat) : Bool := 0xd800 ≤ n && n ≤ 0xdbff

/-- Second halves of pairs of units. -/
def isLow (n : Nat) : Bool := 0xdc00 ≤ n && n ≤ 0xdfff

/-- The characters that units stand for, first unit last; an unpaired half stands for none. -/
def characters : List Char → List Nat → Option (List Char)
  | acc, [] => some acc
  | acc, low :: high :: rest =>
    if isLow low && isHigh high then
      characters (Char.ofNat (0x10000 + (high - 0xd800) * 0x400 + (low - 0xdc00)) :: acc) rest
    else if isLow low || isHigh low then none
    else characters (Char.ofNat low :: acc) (high :: rest)
  | acc, [n] => if isLow n || isHigh n then none else some (Char.ofNat n :: acc)

/-- A string after its opening quote: its value, if it has one, and the rest. -/
def string (cs : List Char) : Option (Option String × List Char) :=
  (units [] cs).map fun (ns, rest) => ((characters [] ns).map String.ofList, rest)

/-! ## Numbers -/

/-- The number written by decimal digits. -/
def natOf (ds : List Char) : Nat := ds.foldl (fun n d => n * 10 + (d.toNat - '0'.toNat)) 0

/-- Leading digits, of which there must be one, and the rest. -/
def digits? (cs : List Char) : Option (List Char × List Char) :=
  let ds := cs.takeWhile Char.isDigit
  if ds.isEmpty then none else some (ds, cs.dropWhile Char.isDigit)

/-- The digits after a point, if there is one, and the rest. -/
def fraction : List Char → Option (Option (List Nat) × List Char)
  | '.' :: cs => (digits? cs).map fun (ds, rest) =>
    (some (ds.map fun d => d.toNat - '0'.toNat), rest)
  | cs => some (none, cs)

/-- The exponent after its letter. -/
def signedDigits : List Char → Option (Int × List Char)
  | '-' :: cs => (digits? cs).map fun (ds, rest) => (-(natOf ds : Int), rest)
  | '+' :: cs => (digits? cs).map fun (ds, rest) => ((natOf ds : Int), rest)
  | cs => (digits? cs).map fun (ds, rest) => ((natOf ds : Int), rest)

/-- The exponent, if there is one, and the rest. -/
def exponent : List Char → Option (Option Int × List Char)
  | 'e' :: cs => (signedDigits cs).map fun (e, rest) => (some e, rest)
  | 'E' :: cs => (signedDigits cs).map fun (e, rest) => (some e, rest)
  | cs => some (none, cs)

/-- A number after its sign, and the rest.  A leading zero is not followed by digits. -/
def unsigned (negative : Bool) (cs : List Char) : Option (Numeral × List Char) := do
  let (ds, cs) ← digits? cs
  if ds.length ≠ 1 ∧ ds.head? = some '0' then none
  else
    let (fraction?, cs) ← fraction cs
    let (exponent?, cs) ← exponent cs
    match fraction?, exponent? with
    | none, none => some (.integer negative (natOf ds), cs)
    | _, _ => some (.decimal negative (natOf ds) (fraction?.getD []) (exponent?.getD 0), cs)

/-- A number and the rest. -/
def number : List Char → Option (Json × List Char)
  | '-' :: cs => (unsigned true cs).map fun (n, rest) => (.number n, rest)
  | cs => (unsigned false cs).map fun (n, rest) => (.number n, rest)

/-! ## Values -/

/-- An object with the given fields, last one first; without value if a name has none. -/
def close (fields : List (Option String × Json)) : Json :=
  match fields.reverse.mapM fun (name?, j) => name?.map fun name => (name, j) with
  | some fields => .object fields
  | none => .broken

mutual

/-- A value and the rest, with so much fuel and so many levels of nesting left. -/
def value : Nat → Nat → List Char → Option (Json × List Char)
  | 0, _, _ => none
  | fuel + 1, depth, cs =>
    match cs with
    | 'n' :: 'u' :: 'l' :: 'l' :: rest => some (.null, rest)
    | 't' :: 'r' :: 'u' :: 'e' :: rest => some (.bool true, rest)
    | 'f' :: 'a' :: 'l' :: 's' :: 'e' :: rest => some (.bool false, rest)
    | '"' :: rest =>
      (string rest).map fun (s?, rest) => ((s?.map Json.text).getD .broken, rest)
    | '[' :: rest =>
      match depth with
      | 0 => none
      | depth + 1 =>
        match skip rest with
        | ']' :: rest => some (.array [], rest)
        | rest => items fuel depth [] rest
    | '{' :: rest =>
      match depth with
      | 0 => none
      | depth + 1 =>
        match skip rest with
        | '}' :: rest => some (.object [], rest)
        | rest => members fuel depth [] rest
    | cs => number cs

/-- The items of an array from the next one on, those before it last one first. -/
def items : Nat → Nat → List Json → List Char → Option (Json × List Char)
  | 0, _, _, _ => none
  | fuel + 1, depth, acc, cs =>
    match value fuel depth cs with
    | none => none
    | some (j, rest) =>
      match skip rest with
      | ',' :: rest => items fuel depth (j :: acc) (skip rest)
      | ']' :: rest => some (.array (j :: acc).reverse, rest)
      | _ => none

/-- The fields of an object from the next one on, those before it last one first. -/
def members : Nat → Nat → List (Option String × Json) → List Char → Option (Json × List Char)
  | 0, _, _, _ => none
  | fuel + 1, depth, acc, cs =>
    match cs with
    | '"' :: rest =>
      match string rest with
      | none => none
      | some (name?, rest) =>
        match skip rest with
        | ':' :: rest =>
          match value fuel depth (skip rest) with
          | none => none
          | some (j, rest) =>
            match skip rest with
            | ',' :: rest => members fuel depth ((name?, j) :: acc) (skip rest)
            | '}' :: rest => some (close ((name?, j) :: acc), rest)
            | _ => none
        | _ => none
    | _ => none

end

end Reader

/-- The value written by a text, nested at most so deeply. -/
def read? (depth : Nat) (text : String) : Option Json :=
  let cs := text.toList
  match Reader.value (2 * cs.length + 2) depth (Reader.skip cs) with
  | some (j, rest) => if (Reader.skip rest).isEmpty then some j else none
  | none => none

/-- How many levels of arrays and objects a value has at most. -/
def maxDepth : Nat := 127

/-- The value written by a text, down to `maxDepth` levels. -/
def ofText? (text : String) : Option Json := (read? text.length text).map (within maxDepth)

/-- The value of a document. -/
def document? (text : String) : Option Json :=
  match read? maxDepth text with
  | some j => if j.sound then some j.settle else none
  | none => none

end Json

end GridRepair
