/-
# Decoding JSON values

How the domain's types are read from JSON.  Integers have ranges; a record is written as an
object with named fields or as a list of its fields in order; a variant is its name, or an
object whose only field is its name with its content.  A record that is the content of a
variant is written like other records in a text; in a document it always names its fields.

Reading either succeeds or not: a value that does not have the form asked for gives `none`.
-/
import GridRepair.Json.Basic

namespace GridRepair

namespace Json

/-- Where a value stands: in a text that is read as one type, or in a document that was read
before, whatever its types are. -/
inductive Source where
  | text
  | document
deriving DecidableEq

/-! ## Plain values -/

/-- An integer in the range of integer arguments. -/
def int? : Json → Option Int
  | .number n => n.int?.filter fun k => decide (minInt ≤ k ∧ k ≤ maxInt)
  | _ => none

/-- A natural number up to a bound. -/
def natUpTo? (bound : Nat) : Json → Option Nat
  | .number n => (n.int?.filter fun (k : Int) => decide (0 ≤ k ∧ k ≤ bound)).map Int.toNat
  | _ => none

/-- A count. -/
def nat? : Json → Option Nat := natUpTo? maxCount

/-- A color code. -/
def colorCode? : Json → Option Nat := natUpTo? maxColorCode

/-- A cost. -/
def cost? : Json → Option Nat := natUpTo? maxCost

/-- A truth value. -/
def bool? : Json → Option Bool
  | .bool b => some b
  | _ => none

/-- A string. -/
def text? : Json → Option String
  | .text s => some s
  | _ => none

/-- A floating-point number. -/
def float? : Json → Option Float
  | .number n => n.float?
  | _ => none

/-- Any value. -/
def any? (j : Json) : Option Json := some j

/-- The results of a list of readings, if all succeed. -/
def allOf? {α : Type} (decode : Json → Option α) : List Json → Option (List α)
  | [] => some []
  | j :: js =>
    match decode j, allOf? decode js with
    | some x, some xs => some (x :: xs)
    | _, _ => none

/-- A list. -/
def list? {α : Type} (decode : Json → Option α) : Json → Option (List α)
  | .array items => allOf? decode items
  | _ => none

/-- A list of two. -/
def pair? {α β : Type} (decode₁ : Json → Option α) (decode₂ : Json → Option β) :
    Json → Option (α × β)
  | .array [j, k] => do
    let x ← decode₁ j
    let y ← decode₂ k
    pure (x, y)
  | _ => none

/-- A value that may be null. -/
def option? {α : Type} (decode : Json → Option α) : Json → Option (Option α)
  | .null => some none
  | j => (decode j).map some

/-! ## Records -/

/-- The fields of a record that were found, and whether they were listed without names. -/
structure Record where
  listed : Bool
  fields : List (String × Json)

/-- No name occurs twice. -/
def distinctNames : List (String × Json) → Bool
  | [] => true
  | (name, _) :: fields => !(fields.any fun field => field.1 == name) && distinctNames fields

/-- The record whose fields are written with their names.  Other fields are ignored. -/
def named? (names : List String) : Json → Option Record
  | .object fields =>
    let known := fields.filter fun field => names.contains field.1
    if distinctNames known then some ⟨false, known⟩ else none
  | _ => none

/-- The record whose fields are written with their names, or as a list in the order of the names.
The list may end before the last field. -/
def record? (names : List String) : Json → Option Record
  | .array items =>
    if items.length ≤ names.length then some ⟨true, names.zip items⟩ else none
  | j => named? names j

/-- The record that is the content of a variant. -/
def content? (source : Source) (names : List String) (j : Json) : Option Record :=
  match source with
  | .text => record? names j
  | .document => named? names j

namespace Record

/-- The value of a field, if the field is there. -/
def get? (r : Record) (name : String) : Option Json := r.fields.lookup name

/-- A field that has to be there. -/
def required? {α : Type} (r : Record) (name : String) (decode : Json → Option α) : Option α :=
  (r.get? name).bind decode

/-- A field whose value may be missing: null, or no field of an object. -/
def optional? {α : Type} (r : Record) (name : String) (decode : Json → Option α) :
    Option (Option α) :=
  match r.get? name with
  | some j => option? decode j
  | none => if r.listed then none else some none

/-- A field that takes a default when it is not there. -/
def orElse? {α : Type} (r : Record) (name : String) (decode : Json → Option α) (value : α) :
    Option α :=
  match r.get? name with
  | some j => decode j
  | none => some value

end Record

/-! ## Variants -/

/-- The name of a variant, and its content if it has one. -/
def variant? : Json → Option (String × Option Json)
  | .text name => some (name, none)
  | .object [(name, content)] => some (name, some content)
  | _ => none

/-- The value of a variant without content. -/
def bare? {α : Type} (value : α) : Option Json → Option α
  | none => some value
  | some .null => some value
  | some _ => none

end Json

end GridRepair
