import FleetBoot.Catalog.BootConfig
import FleetBoot.Address.Cidr
import FleetBoot.Json.Record

/-! The catalog's records as JSON. An absent option leaves its member out. -/
namespace FleetBoot
open Json

def withOption (name : String) (value : Option Json) (rest : List (String × Json)) :
    List (String × Json) :=
  match value with
  | none => rest
  | some v => (name, v) :: rest

def Payload.toJson (p : Payload) : Json :=
  .object [("payload_directory", .string p.directory), ("payload_id", .string p.id)]

def Payload.ofJson? (v : Json) : Option Payload := do
  guard (v.isRecord 2 false)
  return ⟨← v.textField? 0 "payload_id", ← v.textField? 1 "payload_directory"⟩

def AssignedPayload.toJson (a : AssignedPayload) : Json :=
  .object [("mac_address", .string a.mac), ("payload_directory", .string a.directory),
    ("payload_id", .string a.id)]

def AssignedPayload.ofJson? (v : Json) : Option AssignedPayload := do
  guard (v.isRecord 3 false)
  return ⟨← v.textField? 0 "mac_address", ← v.textField? 1 "payload_id",
    ← v.textField? 2 "payload_directory"⟩

def ImageKey.toJson (k : ImageKey) : Json :=
  .object [("image_tag", .string k.tag), ("image_type", .string k.type)]

def ImageKey.ofJson? (v : Json) : Option ImageKey := do
  guard (v.isRecord 2 false)
  return ⟨← v.textField? 0 "image_tag", ← v.textField? 1 "image_type"⟩

/-- The members of an image, whether other members follow or not. -/
def Image.members (i : Image) : List (String × Json) :=
  [("image_bucket", .string i.bucket), ("image_cmdline", .string i.cmdline)] ++
    withOption "image_file" (i.file.map .string)
      [("image_name", .string i.name), ("image_tag", .string i.tag),
        ("image_type", .string i.type)]

def Image.toJson (i : Image) : Json := .object i.members

def Image.ofJson? (v : Json) : Option Image := do
  guard (v.isRecord 6 false)
  return ⟨← v.textField? 0 "image_name", ← v.textField? 1 "image_bucket",
    ← v.textField? 2 "image_tag", ← v.textField? 3 "image_type",
    ← v.textField? 4 "image_cmdline", ← optional? text? (v.field? 5 "image_file")⟩

/-- A device's image by its key alone. -/
def imageAssignmentJson (a : Assignment .image) : Json :=
  .object [("image_tag", .string a.key.tag), ("image_type", .string a.key.type),
    ("mac_address", .string a.mac)]

def imageAssignmentOfJson? (v : Json) : Option (Assignment .image) := do
  guard (v.isRecord 3 false)
  return ⟨← v.textField? 0 "mac_address",
    ⟨← v.textField? 1 "image_tag", ← v.textField? 2 "image_type"⟩⟩

def NetworkTarget.toJson : NetworkTarget → Json
  | .payload id => .object [("kind", .string "payload"), ("payload_id", .string id)]
  | .image key => .object [("image_tag", .string key.tag), ("image_type", .string key.type),
      ("kind", .string "image")]

def NetworkTarget.ofJson? (v : Json) : Option NetworkTarget := do
  let (kind, body) ← v.tagged? "kind"
  if kind = "payload" then
    guard (body.isRecord 1 false)
    return .payload (← body.textField? 0 "payload_id")
  else if kind = "image" then
    return .image (← ImageKey.ofJson? body)
  else none

def NetworkDefault.toJson (d : NetworkDefault) : Json :=
  .object [("cidr", .string d.cidr), ("target", d.target.toJson)]

def NetworkDefault.ofJson? (v : Json) : Option NetworkDefault := do
  guard (v.isRecord 2 false)
  return ⟨← v.textField? 0 "cidr", ← (v.field? 1 "target").bind NetworkTarget.ofJson?⟩

def SignedUrl.toJson (u : SignedUrl) : Json :=
  .object [("http", .string u.http), ("https", .string u.https)]

def SignedUrl.ofJson? (v : Json) : Option SignedUrl := do
  guard (v.isRecord 2 false)
  return ⟨← v.textField? 0 "https", ← v.textField? 1 "http"⟩

/-- The members for signed objects, by name after those of an image. -/
def ImageAssets.members (a : ImageAssets) : List (String × Json) :=
  withOption "image_url" (a.file.map SignedUrl.toJson)
    [("initrd_url", a.initrd.toJson), ("kernel_url", a.kernel.toJson),
      ("rootfs_url", a.rootfs.toJson)]

def ImageAssets.toJson (a : ImageAssets) : Json := .object a.members

def SignedImage.toJson (s : SignedImage) : Json := .object (s.image.members ++ s.assets.members)

def BootConfig.toJson (c : BootConfig) : Json :=
  .object <|
    [("hostname", .string c.hostname), ("image_bucket", .string c.bucket),
      ("image_cmdline", .string c.cmdline), ("image_name", .string c.name),
      ("image_tag", .string c.tag), ("image_type", .string c.type)] ++
    (⟨c.initrd, c.kernel, c.rootfs, c.file⟩ : ImageAssets).members

def BootConfig.ofJson? (v : Json) : Option BootConfig := do
  guard (v.isRecord 10 false)
  let url (place : Nat) (name : String) := (v.field? place name).bind SignedUrl.ofJson?
  return ⟨← v.textField? 0 "image_name", ← v.textField? 1 "image_bucket",
    ← v.textField? 2 "image_tag", ← v.textField? 3 "image_type",
    ← v.textField? 4 "image_cmdline", ← url 5 "initrd_url", ← url 6 "kernel_url",
    ← url 7 "rootfs_url", ← optional? SignedUrl.ofJson? (v.field? 8 "image_url"),
    ← v.textField? 9 "hostname"⟩

def NetworkDefaults.toJson (d : NetworkDefaults) : Json :=
  .object [("image", (d.image.map Image.toJson).getD .null),
    ("payload", (d.payload.map Payload.toJson).getD .null)]

def Cidr.toJson (c : Cidr) : Json := .string c.text

def Cidr.ofJson? (v : Json) : Option Cidr := v.text?.bind Cidr.parse?

end FleetBoot
