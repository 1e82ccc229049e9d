import FleetBoot.Config.Basic
import FleetBoot.Json.Record

/-! Settings as JSON. A section or a setting that is absent has its built-in value. -/
namespace FleetBoot.Config
open Json

def wordJson (n : UInt64) : Json := .nat n.toNat

def toJson (c : Config) : Json :=
  .object [
    ("assets", .object [("url_ttl_secs", wordJson c.assets.urlTtlSecs)]),
    ("defaults", .object [
      ("bucket", .string c.defaults.bucket),
      ("image", .string c.defaults.image),
      ("image_tag", .string c.defaults.imageTag),
      ("image_type", .string c.defaults.imageType),
      ("payload_directory", .string c.defaults.payloadDirectory),
      ("payload_id", .string c.defaults.payloadId)]),
    ("logging", .object [("json", .bool c.logging.json)]),
    ("object_store", .object [
      ("endpoint", (c.objects.endpoint.map .string).getD .null),
      ("region", .string c.objects.region)]),
    ("server", .object [
      ("http_addr", .string c.server.httpAddress),
      ("request_timeout_ms", wordJson c.server.requestTimeoutMs)]),
    ("storage", .object [("database_path", .string c.storage.databasePath)]),
    ("template", .object [("path", .string c.template.path)])]

section
variable (surplus : Bool)

def serverOf? (v : Json) : Option ServerSettings := do
  guard (v.isRecord 2 surplus)
  let base : ServerSettings := {}
  return ⟨← orElse? base.httpAddress text? (v.field? 0 "http_addr"),
    ← orElse? base.requestTimeoutMs word? (v.field? 1 "request_timeout_ms")⟩

def storageOf? (v : Json) : Option StorageSettings := do
  guard (v.isRecord 1 surplus)
  let base : StorageSettings := {}
  return ⟨← orElse? base.databasePath text? (v.field? 0 "database_path")⟩

def objectsOf? (v : Json) : Option ObjectSettings := do
  guard (v.isRecord 2 surplus)
  let base : ObjectSettings := {}
  return ⟨← optional? text? (v.field? 0 "endpoint"),
    ← orElse? base.region text? (v.field? 1 "region")⟩

def assetsOf? (v : Json) : Option AssetSettings := do
  guard (v.isRecord 1 surplus)
  let base : AssetSettings := {}
  return ⟨← orElse? base.urlTtlSecs word? (v.field? 0 "url_ttl_secs")⟩

def defaultsOf? (v : Json) : Option Defaults := do
  guard (v.isRecord 6 surplus)
  let base : Defaults := {}
  return ⟨← orElse? base.payloadId text? (v.field? 0 "payload_id"),
    ← orElse? base.payloadDirectory text? (v.field? 1 "payload_directory"),
    ← orElse? base.image text? (v.field? 2 "image"),
    ← orElse? base.imageTag text? (v.field? 3 "image_tag"),
    ← orElse? base.imageType text? (v.field? 4 "image_type"),
    ← orElse? base.bucket text? (v.field? 5 "bucket")⟩

def templateOf? (v : Json) : Option TemplateSettings := do
  guard (v.isRecord 1 surplus)
  let base : TemplateSettings := {}
  return ⟨← orElse? base.path text? (v.field? 0 "path")⟩

def loggingOf? (v : Json) : Option LoggingSettings := do
  guard (v.isRecord 1 surplus)
  let base : LoggingSettings := {}
  return ⟨← orElse? base.json flag? (v.field? 0 "json")⟩

def read? (v : Json) : Option Config := do
  guard (v.isRecord 7 surplus)
  return ⟨← orElse? {} (serverOf? surplus) (v.field? 0 "server"),
    ← orElse? {} (storageOf? surplus) (v.field? 1 "storage"),
    ← orElse? {} (objectsOf? surplus) (v.field? 2 "object_store"),
    ← orElse? {} (assetsOf? surplus) (v.field? 3 "assets"),
    ← orElse? {} (defaultsOf? surplus) (v.field? 4 "defaults"),
    ← orElse? {} (templateOf? surplus) (v.field? 5 "template"),
    ← orElse? {} (loggingOf? surplus) (v.field? 6 "logging")⟩

end

def ofJson? (v : Json) : Option Config := read? false v

def defaultsOfJson? (v : Json) : Option Defaults := defaultsOf? false v

end FleetBoot.Config
