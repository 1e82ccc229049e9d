import FleetBoot.Text.Percent
import FleetBoot.Text.Search

/-! Which resource a request names, and the methods that it has. -/
namespace FleetBoot

inductive Method where
  | get
  | head
  | put
  | delete
  | other (name : String)
  deriving DecidableEq

def Method.ofName : String → Method
  | "GET" => .get
  | "HEAD" => .head
  | "PUT" => .put
  | "DELETE" => .delete
  | name => .other name

def Method.name : Method → String
  | .get => "GET"
  | .head => "HEAD"
  | .put => "PUT"
  | .delete => "DELETE"
  | .other name => name

/-- A resource, with the part of the path that it is found by as it stands there. -/
inductive Resource where
  | health
  | payloads
  | payload
  | devicePayload (identity : String)
  | parameters (payloadId : String)
  | bootConfig (identity : String)
  | bootScript (identity : String)
  | images
  | node
  | objects (image : String)
  | network (ip : String)
  deriving DecidableEq

namespace Resource

/-- A resource found by the last part of the path, which must not be empty. -/
def byPart (f : String → Resource) (part : String) : Option Resource :=
  if part.isEmpty then none else some (f part)

/-- The resource of a path that is cut at its slashes. -/
def ofParts? : List String → Option Resource
  | ["", "health"] => some .health
  | ["", "api", "v2", "payloads"] => some .payloads
  | ["", "api", "v2", "payload"] => some .payload
  | ["", "api", "v2", "payload", ""] => some .payload
  | ["", "api", "v2", "payload", identity] => some (.devicePayload identity)
  | ["", "api", "v2", "payload", "config", id] => byPart .parameters id
  | ["", "api", "v2", "ipxe", "config", identity] => byPart .bootConfig identity
  | ["", "api", "v2", "ipxe", "template", identity] => byPart .bootScript identity
  | ["", "api", "v2", "ipxe", "images"] => some .images
  | ["", "api", "v2", "ipxe", "node"] => some .node
  | ["", "api", "v2", "ipxe", "s3", image] => byPart .objects image
  | ["", "api", "v2", "network", ip] => byPart .network ip
  | _ => none

/-- A target's path, without query or fragment. -/
def path (target : List Char) : List Char := target.takeWhile fun c => c ≠ '?' && c ≠ '#'

def ofTarget? (target : String) : Option Resource :=
  ofParts? ((Text.splitChar '/' (path target.toList)).map String.ofList)

/-- The methods of a resource. One that can be read has `HEAD` after `GET`. -/
def methods : Resource → List Method
  | .health | .payloads | .parameters _ | .bootConfig _ | .bootScript _ | .objects _ | .network _ =>
      [.get, .head]
  | .payload | .node => [.put]
  | .devicePayload _ => [.get, .head, .put]
  | .images => [.get, .head, .put, .delete]

/-- The name of the part that a resource is found by, and the part. -/
def parameter? : Resource → Option (String × String)
  | .devicePayload part | .bootConfig part | .bootScript part => some ("identity", part)
  | .parameters part => some ("payload_id", part)
  | .objects part => some ("image", part)
  | .network part => some ("ip", part)
  | .health | .payloads | .payload | .images | .node => none

/-- The same resource with its part as plain text, or the name of a part that is not UTF-8. -/
def decode (r : Resource) : Except String Resource :=
  match r.parameter? with
  | none => .ok r
  | some (name, part) =>
      match Text.percentText? part.toList with
      | none => .error name
      | some s =>
          let text := String.ofList s
          .ok <| match r with
            | .devicePayload _ => .devicePayload text
            | .parameters _ => .parameters text
            | .bootConfig _ => .bootConfig text
            | .bootScript _ => .bootScript text
            | .objects _ => .objects text
            | .network _ => .network text
            | .health => .health
            | .payloads => .payloads
            | .payload => .payload
            | .images => .images
            | .node => .node

end Resource
end FleetBoot
