import FleetBoot.Http.Route
import FleetBoot.Json.Basic
import FleetBoot.Service.Error

/-! What a request is answered, and the status of each error. -/
namespace FleetBoot

inductive Content where
  | none
  | json (value : Json)
  | plain (text : String)

/-- An answer. `allow` lists the methods of a resource that was asked for another. -/
structure Response where
  status : Nat
  contentType : Option String
  body : Content
  allow : List Method

namespace Response

def typeOf : Content → Option String
  | .none => Option.none
  | .json _ => some "application/json"
  | .plain _ => some "text/plain; charset=utf-8"

def ofContent (status : Nat) (content : Content) : Response :=
  ⟨status, typeOf content, content, []⟩

def refusal (status : Nat) (message : String) : Response :=
  ofContent status (.json (.object [("errors", .strings [message])]))

def badRequest (message : String) : Response := refusal 400 message

def notFound : Response := ofContent 404 .none

/-- There is such a resource, with these methods. -/
def wrongMethod (allow : List Method) : Response := ⟨405, none, .none, allow⟩

/-- A part of the path is no text. -/
def badPath (parameter : String) : Response :=
  ofContent 400 (.plain ("Invalid URL: Invalid UTF-8 in `" ++ parameter ++ "`"))

def statusOf : ServiceError → Nat
  | .missingField _ | .invalidIdentity _ => 400
  | .notFound _ _ | .noParameters _ | .noImage _ => 404
  | .ambiguous _ _ | .assignedMeanwhile _ _ | .imageExists _ => 409
  | .unavailable _ _ _ => 422
  | .cancelled => 503
  | .storage _ | .objectStore _ => 500

/-- A request that ran out of time is told nothing. -/
def ofError : ServiceError → Response
  | .cancelled => ofContent 503 .none
  | e => refusal (statusOf e) e.publicMessage

/-- The same answer without its body, as `HEAD` asks for. -/
def withoutBody (r : Response) : Response := { r with body := .none }

end Response
end FleetBoot
