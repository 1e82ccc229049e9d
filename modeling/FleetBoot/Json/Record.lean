import FleetBoot.Json.Basic

/-! Reading records out of JSON values. An object gives a record's fields by name and may hold
more; an array gives them by place. -/
namespace FleetBoot.Json

/-- Whether the value has the form of a record of `size` fields. With `surplus` an array may hold
more than that. -/
def isRecord (size : Nat) (surplus : Bool) : Json → Bool
  | .object _ => true
  | .array items => surplus || items.length ≤ size
  | _ => false

def field? (place : Nat) (name : String) : Json → Option Json
  | .object members => members.lookup name
  | .array items => items[place]?
  | _ => none

def text? : Json → Option String
  | .string s => some s
  | _ => none

def flag? : Json → Option Bool
  | .bool b => some b
  | _ => none

/-- A whole number of 64 bits. -/
def word? : Json → Option UInt64
  | .number (.integer (.ofNat n)) => if n < Nat.pow 2 64 then some (UInt64.ofNat n) else none
  | _ => none

def textField? (v : Json) (place : Nat) (name : String) : Option String :=
  (v.field? place name).bind text?

/-- A field that may be absent. A null counts as absent. -/
def optional? {α : Type} (read : Json → Option α) : Option Json → Option (Option α)
  | none => some none
  | some .null => some none
  | some v => (read v).map some

/-- A field that is `other` when absent. -/
def orElse? {α : Type} (other : α) (read : Json → Option α) : Option Json → Option α
  | none => some other
  | some v => read v

/-- A text under the name `tag`, or first in an array, and the record of what else there is. -/
def tagged? (tag : String) : Json → Option (String × Json)
  | .object members => (members.lookup tag).bind text? |>.map fun s => (s, .object members)
  | .array (.string s :: rest) => some (s, .array rest)
  | _ => none

/-- A list whose items all read. -/
def listOf? {α : Type} (read : Json → Option α) : Json → Option (List α)
  | .array items => items.mapM read
  | _ => none

end FleetBoot.Json
