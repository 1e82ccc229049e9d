import FleetBoot.Plan.Basic

/-! Why the service refuses or fails a request, and what the caller is told of it. -/
namespace FleetBoot

inductive ServiceError where
  | missingField (field : String)
  | invalidIdentity (cause : IdentityError)
  | notFound (kind : Kind) (identity : Identity)
  | ambiguous (token : String) (addresses : List String)
  | noParameters (payloadId : String)
  | noImage (key : ImageKey)
  | assignedMeanwhile (kind : Kind) (mac : String)
  | imageExists (key : ImageKey)
  | unavailable (kind : Kind) (candidate : kind.Key) (available : List kind.Key)
  | cancelled
  | storage (cause : StoreError)
  | objectStore (cause : AssetError)

namespace ServiceError

/-- How a call's failure fails the request. -/
def ofCall : (c : Call) → c.Error → ServiceError
  | .presign _, e | .fetch _ _, e => .objectStore e
  | .find _ _ _, e | .networkDefault _ _, e | .definition _, e | .available _, e | .insert _, e
  | .update _, e | .parameters _, e | .create _, e | .delete _, e => .storage e

def message : ServiceError → String
  | .missingField field => field ++ " is required"
  | .invalidIdentity cause => "Invalid identity: " ++ cause.message
  | .notFound kind identity =>
      kind.noun ++ " not found for " ++ identity.form.noun ++ " " ++ identity.text
  | .ambiguous token addresses =>
      "hostname " ++ token ++ " matches several devices: " ++ ", ".intercalate addresses
  | .noParameters id => "payload parameters for " ++ id ++ " not found"
  | .noImage key => "image " ++ key.text ++ " not found"
  | .assignedMeanwhile kind mac =>
      kind.noun ++ " assignment for " ++ mac ++ " was created concurrently"
  | .imageExists key => "image " ++ key.text ++ " already exists"
  | .unavailable kind candidate _ =>
      kind.noun ++ " " ++ Kind.keyText candidate ++ " is not available"
  | .cancelled => "request cancelled"
  | .storage cause => "storage failure: " ++ cause.message
  | .objectStore cause => "object storage failure: " ++ cause.message

/-- Whether the caller can mend the request. -/
def isClientError : ServiceError → Bool
  | .cancelled | .storage _ | .objectStore _ => false
  | _ => true

/-- What the caller is told. How a store failed is kept back. -/
def publicMessage : ServiceError → String
  | .storage _ => "internal storage error"
  | .objectStore _ => "failed to locate boot assets"
  | .unavailable kind candidate available =>
      kind.noun ++ " " ++ Kind.keyText candidate ++ " is not available. Available " ++
        kind.noun ++ "s: " ++ ", ".intercalate (available.map Kind.keyText)
  | e => e.message

end ServiceError

/-- One call whose failure fails the request. -/
def Plan.request (c : Call) : Plan ServiceError c.Reply :=
  (Plan.ask c).mapError (ServiceError.ofCall c)

end FleetBoot
