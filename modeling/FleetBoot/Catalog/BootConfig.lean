import FleetBoot.Catalog.Basic
import FleetBoot.Text.Search

/-! Signed addresses of an image's objects, and all that a device needs to boot. -/
namespace FleetBoot

/-- A signed address and the same address without encryption. -/
structure SignedUrl where
  https : String
  http : String
  deriving DecidableEq

/-- The plain address has the first `https` in the text, wherever it stands, turned into `http`. -/
def SignedUrl.ofHttps (url : String) : SignedUrl :=
  ⟨url, String.ofList (Text.replaceFirst "https".toList "http".toList url.toList)⟩

/-- The signed objects of one image. -/
structure ImageAssets where
  initrd : SignedUrl
  kernel : SignedUrl
  rootfs : SignedUrl
  file : Option SignedUrl
  deriving DecidableEq

structure BootConfig where
  name : String
  bucket : String
  tag : String
  type : String
  cmdline : String
  initrd : SignedUrl
  kernel : SignedUrl
  rootfs : SignedUrl
  file : Option SignedUrl
  hostname : String
  deriving DecidableEq

def BootConfig.key (c : BootConfig) : ImageKey := ⟨c.tag, c.type⟩

def BootConfig.new (i : Image) (a : ImageAssets) (hostname : String) : BootConfig :=
  ⟨i.name, i.bucket, i.tag, i.type, i.cmdline, a.initrd, a.kernel, a.rootfs, a.file, hostname⟩

/-- A catalog entry with its signed objects. -/
structure SignedImage where
  image : Image
  assets : ImageAssets
  deriving DecidableEq

/-- What covers one address: the defaults of its networks. -/
structure NetworkDefaults where
  payload : Option Payload
  image : Option Image
  deriving DecidableEq

end FleetBoot
