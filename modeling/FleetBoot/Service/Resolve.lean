import FleetBoot.Service.Cascade
import FleetBoot.Service.Locator

/-! What a device is to install and to boot. -/
namespace FleetBoot.Service

/-- The payload of the settings, for devices that get no other. -/
def globalPayload (s : Service) : Payload := ⟨s.defaults.payloadId, s.defaults.payloadDirectory⟩

def payloads (s : Service) : Cascade .payload AssignedPayload where
  globalKey := s.defaults.payloadId
  global := pure s.globalPayload
  deliver mac _ payload := pure (.new mac payload)

def globalImageKey (s : Service) : ImageKey := ⟨s.defaults.imageTag, s.defaults.imageType⟩

def globalImageWith (s : Service) (cmdline : String) : Image :=
  ⟨s.defaults.image, s.defaults.bucket, s.defaults.imageTag, s.defaults.imageType, cmdline, none⟩

/-- The image of the settings. Its command line lies with its objects; where none can be read it is
empty. -/
def globalImage (s : Service) : Plan ServiceError Image := do
  match ← Plan.attempt (.fetch s.defaults.bucket (objectKey s.defaults.image "cmdline")) with
  | .ok bytes => return s.globalImageWith (cmdlineText bytes)
  | .error _ => return s.globalImageWith ""

/-- The signed objects of a catalog entry. -/
def imageAssets (s : Service) (image : Image) : Plan ServiceError ImageAssets :=
  (s.locate image.bucket image.name image.file none).mapError .objectStore

def images (s : Service) : Cascade .image BootConfig where
  globalKey := s.globalImageKey
  global := s.globalImage
  deliver _ identity image := return .new image (← s.imageAssets image) identity.hostName

/-- The identity that a raw name spells. -/
def identify (raw : String) : Plan ServiceError Identity :=
  match Identity.normalize raw with
  | .ok identity => pure identity
  | .error cause => .fail (.invalidIdentity cause)

def resolvePayload (s : Service) (raw : String) (caller : Option Address) :
    Plan ServiceError AssignedPayload := do
  return (← s.payloads.resolve (← identify raw) caller).answer

def resolveImage (s : Service) (raw : String) (caller : Option Address) :
    Plan ServiceError BootConfig := do
  return (← s.images.resolve (← identify raw) caller).answer

end FleetBoot.Service
