import FleetBoot.Service.Resolve

/-! Giving a device an entry of the catalog. -/
namespace FleetBoot.Service

/-- A field without outer blanks, which must leave something. -/
def require (field value : String) : Except ServiceError String :=
  let value := Text.trim value
  if value.isEmpty then .error (.missingField field) else .ok value

def available (k : Kind) : Plan ServiceError (List k.Key) := Plan.request (.available k)

/-- Refuses what the catalog does not have. -/
def requireAvailable {k : Kind} (candidate : k.Key) (catalog : List k.Key) :
    Except ServiceError Unit :=
  if candidate ∈ catalog then .ok () else .error (.unavailable k candidate catalog)

/-- The address that an identity names. A token names the one device that has a row and that it
selects. -/
def owner (k : Kind) (identity : Identity) : Plan ServiceError String := do
  match identity.mac? with
  | some mac => return mac
  | none =>
      match ← deviceRow k identity with
      | some row => return row.row.mac
      | none => .fail (.notFound k identity)

/-- Adds the row of a device that had none when it was looked at. -/
def insertRow {k : Kind} (row : Assignment k) : Plan ServiceError Unit := do
  match ← Plan.attempt (.insert row) with
  | .ok () => return ()
  | .error e => .fail (if e.isUnique then .assignedMeanwhile k row.mac else .storage e)

/-- Changes the device's row. If it has none an address gets one, while a token's row is gone. -/
def write {k : Kind} (identity : Identity) (row : Assignment k) : Plan ServiceError Unit := do
  let changed ← Plan.request (.update row)
  if 0 < changed then return ()
  else match identity with
    | .mac _ => insertRow row
    | .hostname _ _ => .fail (.notFound k identity)

def assignPayload (raw payloadId : String) : Plan ServiceError AssignedPayload := do
  let identity ← identify raw
  let id ← .ofExcept (require "payload_id" payloadId)
  let catalog ← available .payload
  .ofExcept (requireAvailable id catalog)
  match ← Plan.request (.definition id) with
  | none => .fail (.unavailable .payload id catalog)
  | some payload =>
      let mac ← owner .payload identity
      write identity (⟨mac, id⟩ : Assignment .payload)
      return .new mac payload

def assignImage (raw tag type : String) : Plan ServiceError (Assignment .image) := do
  let identity ← identify raw
  let tag ← .ofExcept (require "image_tag" tag)
  let type ← .ofExcept (require "image_type" type)
  let key : ImageKey := ⟨tag, type⟩
  let catalog ← available .image
  .ofExcept (requireAvailable key catalog)
  let mac ← owner .image identity
  let row : Assignment .image := ⟨mac, key⟩
  write identity row
  return row

end FleetBoot.Service
