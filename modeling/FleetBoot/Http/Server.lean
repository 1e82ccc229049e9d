import FleetBoot.Address.Parser
import FleetBoot.Catalog.Codec
import FleetBoot.Http.Form
import FleetBoot.Http.MediaType
import FleetBoot.Http.Response
import FleetBoot.Plan.Run
import FleetBoot.Service.Manage
import FleetBoot.Template.Basic

/-! Answering requests: the resource, the method, the parts of the path, the body, and then the
service. -/
namespace FleetBoot

structure Request where
  method : Method
  target : String
  peer : Option Address
  contentType : Option String
  body : String

/-- What requests are answered with. A request has `timeout` milliseconds; `clock` writes a time. -/
structure Server where
  service : Service
  template : Template
  timeout : Nat
  clock : Nat → String

namespace Server

def textFields (names : List String) : List FormField := names.map (⟨·, false⟩)

/-- The fields of the body, or the words that refuse it. -/
def readBody (request : Request) (fields : List FormField) : Except String FormValues :=
  match (request.contentType.bind MediaType.parse?).map MediaType.isJson with
  | some true =>
      match Form.read fields request.body with
      | .ok values => .ok values
      | .error .malformed => .error "Failed to parse the request body as JSON"
      | .error .mistyped => .error "Failed to deserialize the JSON body into the target type"
  | _ => .error "Expected request with `Content-Type: application/json`"

/-- What is to be done for a request: an answer that is there at once, or a plan for one. -/
inductive Action where
  | reply (response : Response)
  | work (plan : Plan ServiceError Content)

def Action.json {α : Type} (encode : α → Json) (plan : Plan ServiceError α) : Action :=
  .work (return .json (encode (← plan)))

def withBody (request : Request) (fields : List FormField) (f : FormValues → Action) : Action :=
  match readBody request fields with
  | .ok values => f values
  | .error message => .reply (.badRequest message)

def healthReport (timestamp : String) : Json :=
  .object [("service", .string "bootcfg-api"), ("status", .string "healthy"),
    ("timestamp", .string timestamp)]

/-- The addresses of an image's objects, one on a line. -/
def addressLines (a : ImageAssets) : String :=
  "initrd_url: " ++ a.initrd.https ++ "\nkernel_url: " ++ a.kernel.https ++
    "\nrootfs_url: " ++ a.rootfs.https ++ "\n"

def imageOf (values : FormValues) : Image :=
  ⟨values.value "image_name", values.value "image_bucket", values.value "image_tag",
    values.value "image_type", values.value "image_cmdline", values.value? "image_file"⟩

/-- The address of the caller, the shorter one if it wraps one. -/
def caller (request : Request) : Option Address := request.peer.map Address.canonical

def read (s : Server) (now : Nat) (request : Request) : Resource → Action
  | .health => .reply (.ofContent 200 (.json (healthReport (s.clock now))))
  | .payloads => .json .strings (Service.available .payload)
  | .devicePayload identity =>
      .json AssignedPayload.toJson (s.service.resolvePayload identity (caller request))
  | .parameters id => .json (fun members => members) (Service.parameters id)
  | .bootConfig identity =>
      .json BootConfig.toJson (s.service.resolveImage identity (caller request))
  | .bootScript identity => .work do
      return .plain (s.template.render (← s.service.resolveImage identity (caller request)))
  | .images => .json (fun keys => .array (keys.map ImageKey.toJson)) (Service.available .image)
  | .objects image => .work do return .plain (addressLines (← s.service.locateImage image))
  | .network ip =>
      match Address.parse? ip with
      | some ip => .json NetworkDefaults.toJson (Service.networkDefaults ip)
      | none => .reply (.badRequest ("invalid ip address: " ++ ip))
  | .payload | .node => .reply .notFound

def put (s : Server) (request : Request) : Resource → Action
  | .payload =>
      withBody request (textFields ["mac_address", "payload_id"]) fun values =>
        .json AssignedPayload.toJson
          (Service.assignPayload (values.value "mac_address") (values.value "payload_id"))
  | .devicePayload identity =>
      withBody request (textFields ["payload_id"]) fun values =>
        .json AssignedPayload.toJson (Service.assignPayload identity (values.value "payload_id"))
  | .images =>
      withBody request
        (textFields ["image_name", "image_bucket", "image_tag", "image_type", "image_cmdline"] ++
          [⟨"image_file", true⟩]) fun values =>
        .json SignedImage.toJson (s.service.createImage (imageOf values))
  | .node =>
      withBody request (textFields ["mac_address", "image_tag", "image_type"]) fun values =>
        .json imageAssignmentJson (Service.assignImage (values.value "mac_address")
          (values.value "image_tag") (values.value "image_type"))
  | _ => .reply .notFound

def delete (request : Request) : Resource → Action
  | .images =>
      withBody request (textFields ["image_tag", "image_type"]) fun values =>
        .json Image.toJson
          (Service.deleteImage (values.value "image_tag") (values.value "image_type"))
  | _ => .reply .notFound

/-- What is to be done for a resource that has the method of the request. -/
def act (s : Server) (now : Nat) (request : Request) (r : Resource) : Action :=
  match request.method with
  | .get | .head => s.read now request r
  | .put => s.put request r
  | .delete => delete request r
  | .other _ => .reply .notFound

def action (s : Server) (now : Nat) (request : Request) : Action :=
  match Resource.ofTarget? request.target with
  | none => .reply .notFound
  | some r =>
      if request.method ∈ r.methods then
        match r.decode with
        | .ok r => s.act now request r
        | .error parameter => .reply (.badPath parameter)
      else .reply (.wrongMethod r.methods)

def ofResult : Option (Except ServiceError Content) → Response
  | none => .ofError .cancelled
  | some (.error e) => .ofError e
  | some (.ok content) => .ofContent 200 content

/-- The answer to a request, and the world after it. -/
def respond (s : Server) (conditions : Conditions) (request : Request) (w : World) :
    Response × World :=
  let (response, w) := match s.action w.now request with
    | .reply response => (response, w)
    | .work plan =>
        let (result, w) := plan.run conditions (.start w.now (some s.timeout)) w
        (ofResult result, w)
  (if request.method = .head then response.withoutBody else response, w)

end Server
end FleetBoot
