/-
# JSON values

The data behind a JSON text.  Objects keep the order and the repetitions of their fields.  A
string that is no sequence of characters has a place in a text but no value; it is `broken`,
and so is an object with such a field name.
-/
import GridRepair.Json.Numeral

namespace GridRepair

/-- A JSON value. -/
inductive Json where
  | null
  | bool (value : Bool)
  | number (value : Numeral)
  | text (value : String)
  | array (items : List Json)
  | object (fields : List (String × Json))
  | broken

namespace Json

/-! ## Building values -/

/-- An integer. -/
def int (n : Int) : Json := .number (.ofInt n)

/-- A count. -/
def nat (n : Nat) : Json := .int (Int.ofNat n)

/-- A list of values. -/
def list {α : Type} (encode : α → Json) (xs : List α) : Json := .array (xs.map encode)

/-- A value that may be missing. -/
def option {α : Type} (encode : α → Json) : Option α → Json
  | some x => encode x
  | none => .null

/-- A named variant with its content. -/
def variant (name : String) (content : Json) : Json := .object [(name, content)]

/-! ## Nesting -/

mutual

/-- The number of levels of arrays and objects. -/
def depth : Json → Nat
  | .array items => depthItems items + 1
  | .object fields => depthFields fields + 1
  | _ => 0

/-- The largest depth of an item. -/
def depthItems : List Json → Nat
  | [] => 0
  | j :: js => max (depth j) (depthItems js)

/-- The largest depth of a field. -/
def depthFields : List (String × Json) → Nat
  | [] => 0
  | (_, j) :: fields => max (depth j) (depthFields fields)

end

mutual

/-- The value down to so many levels: arrays and objects further down are left without value. -/
def within : Nat → Json → Json
  | 0, .array _ => .broken
  | 0, .object _ => .broken
  | n + 1, .array items => .array (withinItems n items)
  | n + 1, .object fields => .object (withinFields n fields)
  | _, j => j

/-- Items down to so many levels. -/
def withinItems : Nat → List Json → List Json
  | _, [] => []
  | n, j :: js => within n j :: withinItems n js

/-- Fields down to so many levels. -/
def withinFields : Nat → List (String × Json) → List (String × Json)
  | _, [] => []
  | n, (name, j) :: fields => (name, within n j) :: withinFields n fields

end

/-! ## Values of a document -/

mutual

/-- Every number is finite and every string is one. -/
def sound : Json → Bool
  | .number n => n.float?.isSome
  | .array items => soundItems items
  | .object fields => soundFields fields
  | .broken => false
  | _ => true

/-- Every item is sound. -/
def soundItems : List Json → Bool
  | [] => true
  | j :: js => sound j && soundItems js

/-- Every field is sound. -/
def soundFields : List (String × Json) → Bool
  | [] => true
  | (_, j) :: fields => sound j && soundFields fields

end

mutual

/-- Repeated fields settled: the last one counts. -/
def settle : Json → Json
  | .array items => .array (settleItems items)
  | .object fields => .object (settleFields fields)
  | j => j

/-- Items with their repeated fields settled. -/
def settleItems : List Json → List Json
  | [] => []
  | j :: js => settle j :: settleItems js

/-- Fields without those that are repeated later. -/
def settleFields : List (String × Json) → List (String × Json)
  | [] => []
  | (name, j) :: fields =>
    if fields.any fun field => field.1 == name then settleFields fields
    else (name, settle j) :: settleFields fields

end

end Json

end GridRepair
