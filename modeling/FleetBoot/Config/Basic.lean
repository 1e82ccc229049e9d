import FleetBoot.Text.Blank

/-! The settings of the service, their built-in values, and which of them are refused. -/
namespace FleetBoot

structure ServerSettings where
  httpAddress : String := "127.0.0.1:8080"
  requestTimeoutMs : UInt64 := 10000
  deriving DecidableEq

structure StorageSettings where
  databasePath : String := "bootcfg.db"
  deriving DecidableEq

structure ObjectSettings where
  endpoint : Option String := none
  region : String := "default"
  deriving DecidableEq

structure AssetSettings where
  urlTtlSecs : UInt64 := 900
  deriving DecidableEq

/-- What a device is given when neither it nor its network has anything. -/
structure Defaults where
  payloadId : String := "default"
  payloadDirectory : String := "default"
  image : String := "default"
  imageTag : String := "default"
  imageType : String := "default"
  bucket : String := "default"
  deriving DecidableEq

structure TemplateSettings where
  path : String := "templates/boot.ipxe"
  deriving DecidableEq

structure LoggingSettings where
  json : Bool := false
  deriving DecidableEq

structure Config where
  server : ServerSettings := {}
  storage : StorageSettings := {}
  objects : ObjectSettings := {}
  assets : AssetSettings := {}
  defaults : Defaults := {}
  template : TemplateSettings := {}
  logging : LoggingSettings := {}
  deriving DecidableEq

namespace Config

inductive Invalid where
  | blank (setting : String)
  | zero (setting : String)
  deriving DecidableEq

def Invalid.reason : Invalid → String
  | .blank setting => setting ++ " cannot be empty"
  | .zero setting => setting ++ " must be greater than zero"

def Invalid.message (e : Invalid) : String := "Invalid configuration: " ++ e.reason

def isBlankText (s : String) : Bool := (Text.trimChars s.toList).isEmpty

/-- The settings that must not be blank, in the order in which they are looked at. -/
def required (c : Config) : List (String × String) :=
  [("defaults.payload_id", c.defaults.payloadId),
    ("defaults.payload_directory", c.defaults.payloadDirectory),
    ("defaults.image", c.defaults.image),
    ("defaults.image_tag", c.defaults.imageTag),
    ("defaults.image_type", c.defaults.imageType),
    ("defaults.bucket", c.defaults.bucket)]

/-- The first fault of the settings. -/
def fault? (c : Config) : Option Invalid :=
  match c.required.find? (isBlankText ·.2) with
  | some (setting, _) => some (.blank setting)
  | none =>
      if c.assets.urlTtlSecs = 0 then some (.zero "assets.url_ttl_secs")
      else if c.server.requestTimeoutMs = 0 then some (.zero "server.request_timeout_ms")
      else none

def validate (c : Config) : Except Invalid Unit :=
  match c.fault? with
  | some e => .error e
  | none => .ok ()

/-- Settings that the environment gives replace those of the file. -/
def override (env : String → Option String) (c : Config) : Config :=
  { c with
    server := { c.server with httpAddress := (env "BOOTCFG_HTTP_ADDR").getD c.server.httpAddress }
    storage :=
      { c.storage with databasePath := (env "BOOTCFG_DATABASE_PATH").getD c.storage.databasePath }
    objects :=
      { c.objects with endpoint := (env "BOOTCFG_S3_ENDPOINT").or c.objects.endpoint }
    template := { c.template with path := (env "BOOTCFG_TEMPLATE_PATH").getD c.template.path } }

end Config
end FleetBoot
