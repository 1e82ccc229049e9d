import FleetBoot.Objects.Basic
import FleetBoot.Store.Basic

/-! What a request can ask of the database and of the object store, and the answers. -/
namespace FleetBoot

inductive Call where
  | find (k : Kind) (identity : Identity) (limit : Nat)
  | networkDefault (k : Kind) (ip : Address)
  | definition (payloadId : String)
  | available (k : Kind)
  | insert {k : Kind} (row : Assignment k)
  | update {k : Kind} (row : Assignment k)
  | parameters (payloadId : String)
  | create (image : Image)
  | delete (key : ImageKey)
  | presign (signing : Signing)
  | fetch (bucket key : String)

namespace Call

/-- How the call fails. -/
@[reducible] def Error : Call → Type
  | .presign _ | .fetch _ _ => AssetError
  | _ => StoreError

/-- What the call gives. -/
@[reducible] def Reply : Call → Type
  | .find k _ _ => List (StoredRow k)
  | .networkDefault k _ => Option k.Entry
  | .definition _ => Option Payload
  | .available k => List k.Key
  | .insert _ => Unit
  | .update _ => Nat
  | .parameters _ => Option Json
  | .create _ => Unit
  | .delete _ => Option Image
  | .presign _ => String
  | .fetch _ _ => List UInt8

abbrev Answer (c : Call) : Type := Except c.Error c.Reply

end Call
end FleetBoot
