import FleetBoot.Text.Digits

/-! Objects in buckets: reading them, signing their addresses, and how both fail. -/
namespace FleetBoot

inductive AssetError where
  | presign (bucket key detail : String)
  | fetch (bucket key detail : String)
  | lifetime (detail : String)
  deriving DecidableEq

def AssetError.message : AssetError → String
  | .presign bucket key detail => "Failed to sign s3://" ++ bucket ++ "/" ++ key ++ ": " ++ detail
  | .fetch bucket key detail => "Failed to fetch s3://" ++ bucket ++ "/" ++ key ++ ": " ++ detail
  | .lifetime detail => "Invalid signed URL lifetime: " ++ detail

/-- An object and for how long, in milliseconds, its address was to be signed. -/
structure Signing where
  bucket : String
  key : String
  lifetime : Nat
  deriving DecidableEq

/-- The whole seconds that the address is valid for. -/
def Signing.seconds (s : Signing) : Nat := s.lifetime / 1000

/-- Objects in memory, the keys that fail in any bucket, and all calls so far in order. -/
structure ObjectStore where
  objects : List ((String × String) × List UInt8) := []
  failing : List String := []
  presigned : List Signing := []
  fetched : List (String × String) := []

namespace ObjectStore

/-- Puts an object where the key says, in the place of one that is there. -/
def put (s : ObjectStore) (bucket key : String) (body : List UInt8) : ObjectStore :=
  { s with objects := ((bucket, key), body) :: s.objects }

def failKey (s : ObjectStore) (key : String) : ObjectStore :=
  { s with failing := key :: s.failing }

/-- The address of an object in memory. -/
def address (s : Signing) : String :=
  "https://" ++ s.bucket ++ ".objects.local/" ++ s.key ++ "?ttl=" ++
    String.ofList (Text.decimal s.seconds)

/-- The address for a signing that the store accepts. -/
def sign (s : ObjectStore) (c : Signing) : Except AssetError String :=
  if s.failing.contains c.key then .error (.presign c.bucket c.key "injected failure")
  else .ok (address c)

/-- Notes the call, then signs. -/
def presign (s : ObjectStore) (c : Signing) : Except AssetError String × ObjectStore :=
  (s.sign c, { s with presigned := s.presigned ++ [c] })

def body (s : ObjectStore) (bucket key : String) : Except AssetError (List UInt8) :=
  match if s.failing.contains key then none else s.objects.lookup (bucket, key) with
  | some bytes => .ok bytes
  | none => .error (.fetch bucket key "no such object")

/-- Notes the call, then reads. -/
def fetch (s : ObjectStore) (bucket key : String) :
    Except AssetError (List UInt8) × ObjectStore :=
  (s.body bucket key, { s with fetched := s.fetched ++ [(bucket, key)] })

end ObjectStore
end FleetBoot
