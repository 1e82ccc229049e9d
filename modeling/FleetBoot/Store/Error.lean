import FleetBoot.Catalog.Basic

/-! The tables of the database, their keys, and how a call to it fails. -/
namespace FleetBoot

inductive Table where
  | catalog (kind : Kind)
  | assignments (kind : Kind)
  | networks (kind : Kind)
  | parameters
  deriving DecidableEq

namespace Table

def name : Table → String
  | .catalog .payload => "payloads"
  | .catalog .image => "images"
  | .assignments .payload => "node_payloads"
  | .assignments .image => "node_images"
  | .networks .payload => "subnet_default_payloads"
  | .networks .image => "subnet_default_images"
  | .parameters => "payload_parameters"

/-- The columns that no two rows share. -/
def primaryKey : Table → List String
  | .catalog .payload => ["payload_id"]
  | .catalog .image => ["image_tag", "image_type"]
  | .assignments _ => ["mac_address"]
  | .networks _ => ["subnet"]
  | .parameters => ["payload_id", "parameter_name"]

end Table

inductive StoreError where
  | uniqueViolation (detail : String)
  | backend (detail : String)
  | poisoned
  | invalidInput (detail : String)
  | io (detail : String)
  deriving DecidableEq

namespace StoreError

def message : StoreError → String
  | .uniqueViolation detail => "Unique constraint violated: " ++ detail
  | .backend detail => "Database error: " ++ detail
  | .poisoned => "Database connection poisoned"
  | .invalidInput detail => "Invalid input: " ++ detail
  | .io detail => "IO error: " ++ detail

def isUnique : StoreError → Bool
  | .uniqueViolation _ => true
  | _ => false

/-- A row with the same key is in the table. -/
def occupied (t : Table) : StoreError :=
  .uniqueViolation ("UNIQUE constraint failed: " ++
    ", ".intercalate (t.primaryKey.map fun c => t.name ++ "." ++ c))

/-- A failure that the database engine reports by number. Two numbers stand for a key that is
taken. -/
def ofEngineCode (code : Int) (detail : String) : StoreError :=
  if code = 2067 ∨ code = 1555 then .uniqueViolation detail else .backend detail

end StoreError
end FleetBoot
