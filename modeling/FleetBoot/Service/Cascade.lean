import FleetBoot.Service.Error

/-! Which entry a device gets: that of its own row, else that of its network, else the default for
all. A device that has nothing of its own is given a row for what it got. -/
namespace FleetBoot

inductive Tier where
  | device
  | network
  | global
  deriving DecidableEq

/-- An answer, where it came from, and what became of the row that was to be written for it. -/
structure Resolution (α : Type) where
  answer : α
  tier : Tier
  writeBack : Option WriteBack

/-- How many rows are looked at: an address has one, and of a token's rows so many can be named. -/
def rowLimit : Identity → Nat
  | .mac _ => 1
  | .hostname _ _ => 16

/-- The one row that the identity selects. The store may have found others. -/
def selectRow {k : Kind} (identity : Identity) (rows : List (StoredRow k)) :
    Except ServiceError (Option (StoredRow k)) :=
  match rows.filter fun r => identity.selects r.row.mac with
  | [] => .ok none
  | [r] => .ok (some r)
  | rs => .error (.ambiguous identity.text (rs.map (·.row.mac)))

/-- The row of the device that the identity names. -/
def deviceRow (k : Kind) (identity : Identity) : Plan ServiceError (Option (StoredRow k)) := do
  let rows ← Plan.request (.find k identity (rowLimit identity))
  .ofExcept (selectRow identity rows)

/-- What differs between kinds: the key of the default for all, how to come by its entry, and what a
device is answered. -/
structure Cascade (k : Kind) (α : Type) where
  globalKey : k.Key
  global : Plan ServiceError k.Entry
  deliver : (mac : String) → Identity → k.Entry → Plan ServiceError α

namespace Cascade
variable {k : Kind} {α : Type}

/-- The entry of a row. One that has left the catalog is still known if it is the default. -/
def rowEntry (c : Cascade k α) (row : StoredRow k) : Plan ServiceError (Option k.Entry) :=
  match row.entry with
  | some entry => pure (some entry)
  | none => if row.row.key = c.globalKey then some <$> c.global else pure none

/-- The address and the entry of the device's own row. -/
def deviceEntry (c : Cascade k α) (identity : Identity) :
    Plan ServiceError (Option (String × k.Entry)) := do
  match ← deviceRow k identity with
  | some row => return (← c.rowEntry row).map fun entry => (row.row.mac, entry)
  | none => return none

def networkEntry (k : Kind) : Option Address → Plan ServiceError (Option k.Entry)
  | some ip => Plan.request (.networkDefault k ip)
  | none => pure none

/-- The entry for a device that has none of its own. -/
def defaultEntry (c : Cascade k α) (caller : Option Address) :
    Plan ServiceError (k.Entry × Tier) := do
  match ← networkEntry k caller with
  | some entry => return (entry, .network)
  | none => return (← c.global, .global)

/-- Answers by a default and keeps it for the device. -/
def fallBack (c : Cascade k α) (mac : String) (identity : Identity) (caller : Option Address) :
    Plan ServiceError (Resolution α) := do
  let (entry, tier) ← c.defaultEntry caller
  let answer ← c.deliver mac identity entry
  let outcome ← Plan.keep ⟨mac, Kind.keyOf entry⟩
  return ⟨answer, tier, some outcome⟩

/-- Resolves an identity. A token names devices that have rows and no others. -/
def resolve (c : Cascade k α) (identity : Identity) (caller : Option Address) :
    Plan ServiceError (Resolution α) := do
  match ← c.deviceEntry identity, identity.mac? with
  | some (mac, entry), _ => return ⟨← c.deliver mac identity entry, .device, none⟩
  | none, some mac => c.fallBack mac identity caller
  | none, none => .fail (.notFound k identity)

end Cascade
end FleetBoot
