import FleetBoot.Objects.Basic
import FleetBoot.Text.Blank
import FleetBoot.Text.Percent

/-! Addresses of objects in the cloud, as they are before the signature is added. -/
namespace FleetBoot

/-- A store under its own address, or else the store of a region. -/
structure CloudStore where
  endpoint : Option String
  region : String

namespace CloudStore

/-- An address and for how many seconds it is valid. -/
structure Signed where
  base : String
  expires : Nat
  deriving DecidableEq

/-- One week in milliseconds: no address is valid for longer. -/
def longest : Nat := 604800000

/-- The bucket is part of the path under an own address, and part of the host in a region. -/
def base (c : CloudStore) (bucket key : String) : String :=
  let path := String.ofList (Text.percentEncode key.toList)
  match c.endpoint with
  | some e => String.ofList (Text.dropTrailing (· == '/') e.toList) ++ "/" ++ bucket ++ "/" ++ path
  | none => "https://" ++ bucket ++ ".s3." ++ c.region ++ ".amazonaws.com/" ++ path

def presign (c : CloudStore) (s : Signing) : Except AssetError Signed :=
  if longest < s.lifetime then .error (.lifetime "longer than one week")
  else .ok ⟨c.base s.bucket s.key, s.seconds⟩

/-- The address with its signature. What signs may fail, too. -/
def sign (c : CloudStore) (signature : Signed → Except String String) (s : Signing) :
    Except AssetError String := do
  (signature (← c.presign s)).mapError (.presign s.bucket s.key)

end CloudStore
end FleetBoot
