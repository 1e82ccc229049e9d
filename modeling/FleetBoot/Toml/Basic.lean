import FleetBoot.Json.Basic

/-! TOML documents as trees, and how keys and headers add to a tree. -/
namespace FleetBoot.Toml

/-- How a table came about: by a header of its own, on the way to one, or by dotted keys. -/
inductive Origin where
  | header
  | passed
  | dotted
  deriving DecidableEq

inductive Node where
  | text (value : String)
  | integer (value : Int)
  | float (value : Double)
  | bool (value : Bool)
  | moment
  | array (items : List Node)
  | inline (dotted : Bool) (members : List (String × Node))
  | table (origin : Origin) (members : List (String × Node))
  | tables (rows : List (List (String × Node)))

abbrev Members := List (String × Node)

/-- Gives a key that is there another value. -/
def replace (key : String) (value : Node) (ms : Members) : Members :=
  ms.map fun (k, v) => if k = key then (k, value) else (k, v)

/-- Adds a key that is not there yet. -/
def addKey? (key : String) (value : Node) (ms : Members) : Option Members :=
  match ms.lookup key with
  | some _ => none
  | none => some (ms ++ [(key, value)])

/-- Changes the table at the end of a path, making the tables on the way. Dotted keys do not pass
tables that have a header. -/
def within? (dotted : Bool) : List String → (Origin → Members → Option Members) →
    Origin → Members → Option Members
  | [], f, o, ms => f o ms
  | key :: path, f, _, ms =>
      match ms.lookup key with
      | none => do
          let o := if dotted then Origin.dotted else .passed
          let inner ← within? dotted path f o []
          return ms ++ [(key, .table o inner)]
      | some (.table o inner) =>
          if dotted ∧ o = .header then none
          else do
            let inner ← within? dotted path f o inner
            return replace key (.table o inner) ms
      | some (.tables rows) =>
          match rows.reverse with
          | [] => none
          | last :: before => do
              let last ← within? dotted path f .header last
              return replace key (.tables (last :: before).reverse) ms
      | some _ => none

/-- Adds `path.key = value` in a table; a table made by dotted keys grows by dotted keys only. -/
def assign? (path : List String) (key : String) (value : Node) :
    Origin → Members → Option Members :=
  within? true path fun o ms =>
    if (o == .dotted) == path.isEmpty then none else addKey? key value ms

/-- The same inside braces, where only dotted keys make tables that can grow. -/
def assignInline? : List String → String → Node → Members → Option Members
  | [], key, value, ms => addKey? key value ms
  | k :: path, key, value, ms =>
      match ms.lookup k with
      | none => do return ms ++ [(k, .inline true (← assignInline? path key value []))]
      | some (.inline true inner) => do
          return replace k (.inline true (← assignInline? path key value inner)) ms
      | some _ => none

/-- Opens the table under a header. -/
def openTable? (key : String) (ms : Members) : Option Members :=
  match ms.lookup key with
  | none => some (ms ++ [(key, .table .header [])])
  | some (.table .passed inner) => some (replace key (.table .header inner) ms)
  | some _ => none

/-- Opens one more table of a list of tables. -/
def openRow? (key : String) (ms : Members) : Option Members :=
  match ms.lookup key with
  | none => some (ms ++ [(key, .tables [[]])])
  | some (.tables rows) => some (replace key (.tables (rows ++ [[]])) ms)
  | some _ => none

mutual

/-- The tree as a JSON value. A date or time of day is an object without members. -/
def Node.toJson : Node → Json
  | .text s => .string s
  | .integer n => .int n
  | .float x => .number (.real x)
  | .bool b => .bool b
  | .moment => .object []
  | .array items => .array (itemsJson items)
  | .inline _ ms => .object (membersJson ms)
  | .table _ ms => .object (membersJson ms)
  | .tables rows => .array (rowsJson rows)

def itemsJson : List Node → List Json
  | [] => []
  | v :: vs => v.toJson :: itemsJson vs

def membersJson : List (String × Node) → List (String × Json)
  | [] => []
  | (k, v) :: ms => (k, v.toJson) :: membersJson ms

def rowsJson : List (List (String × Node)) → List Json
  | [] => []
  | ms :: rows => .object (membersJson ms) :: rowsJson rows

end

end FleetBoot.Toml
