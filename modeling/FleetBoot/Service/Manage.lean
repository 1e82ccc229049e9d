import FleetBoot.Service.Assign

/-! Looking at the catalog and changing it. -/
namespace FleetBoot.Service

/-- What the smallest networks around an address are given. -/
def networkDefaults (ip : Address) : Plan ServiceError NetworkDefaults := do
  let payload ← Plan.request (.networkDefault .payload ip)
  let image ← Plan.request (.networkDefault .image ip)
  return ⟨payload, image⟩

def parameters (payloadId : String) : Plan ServiceError Json := do
  let id ← .ofExcept (require "payload_id" payloadId)
  match ← Plan.request (.parameters id) with
  | some members => return members
  | none => .fail (.noParameters id)

/-- An image as it goes into the catalog: without outer blanks, and with all fields but the file. -/
def requireImage (i : Image) : Except ServiceError Image := do
  return {
    name := ← require "image_name" i.name
    bucket := ← require "image_bucket" i.bucket
    tag := ← require "image_tag" i.tag
    type := ← require "image_type" i.type
    cmdline := ← require "image_cmdline" i.cmdline
    file := (i.file.map Text.trim).filter (!·.isEmpty) }

/-- Adds an image whose objects can all be signed. -/
def createImage (s : Service) (image : Image) : Plan ServiceError SignedImage := do
  let image ← .ofExcept (requireImage image)
  let assets ← s.imageAssets image
  match ← Plan.attempt (.create image) with
  | .ok () => return ⟨image, assets⟩
  | .error e => .fail (if e.isUnique then .imageExists image.key else .storage e)

def deleteImage (tag type : String) : Plan ServiceError Image := do
  let tag ← .ofExcept (require "image_tag" tag)
  let type ← .ofExcept (require "image_type" type)
  match ← Plan.request (.delete ⟨tag, type⟩) with
  | some image => return image
  | none => .fail (.noImage ⟨tag, type⟩)

/-- The signed objects of an image in the default bucket. -/
def locateImage (s : Service) (image : String) : Plan ServiceError ImageAssets :=
  (s.locate "" (Text.trim image) none none).mapError .objectStore

end FleetBoot.Service
