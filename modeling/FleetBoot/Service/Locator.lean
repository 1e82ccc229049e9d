import FleetBoot.Catalog.BootConfig
import FleetBoot.Config.Basic
import FleetBoot.Plan.Basic
import FleetBoot.Text.Blank
import FleetBoot.Text.Utf8

/-! Where an image's objects lie, and their signed addresses. -/
namespace FleetBoot

/-- What the service falls back on: the default entries, and for how many milliseconds addresses
are signed. -/
structure Service where
  defaults : Defaults
  lifetime : Nat

namespace Service

def ofConfig (c : Config) : Service := ⟨c.defaults, c.assets.urlTtlSecs.toNat * 1000⟩

def bucketOr (s : Service) (bucket : String) : String :=
  if bucket.isEmpty then s.defaults.bucket else bucket

def imageOr (s : Service) (image : String) : String :=
  if image.isEmpty then s.defaults.image else image

/-- The key of an object that lies with an image. -/
def objectKey (image object : String) : String :=
  String.ofList (Text.dropTrailing (· == '/') image.toList) ++ "/" ++ object

def sign (signing : Signing) : Plan AssetError SignedUrl :=
  return .ofHttps (← Plan.ask (.presign signing))

/-- Signs the three objects that every image has, and then the file if it has a name. An empty
bucket or image stands for the default, and so does no lifetime. -/
def locate (s : Service) (bucket image : String) (file : Option String) (lifetime : Option Nat) :
    Plan AssetError ImageAssets := do
  let signed (object : String) :=
    sign ⟨s.bucketOr bucket, objectKey (s.imageOr image) object, lifetime.getD s.lifetime⟩
  let initrd ← signed "initrd.img"
  let kernel ← signed "vmlinuz"
  let rootfs ← signed "rootfs.cpio.gz"
  match file.filter (!·.isEmpty) with
  | some name => return ⟨initrd, kernel, rootfs, some (← signed name)⟩
  | none => return ⟨initrd, kernel, rootfs, none⟩

def cmdlineText (bytes : List UInt8) : String :=
  Text.trimEnd (String.ofList (Text.utf8Lossy bytes))

/-- The command line that lies with an image, without blanks at its end. -/
def fetchCmdline (s : Service) (bucket image : String) : Plan AssetError String := do
  let key := objectKey (s.imageOr image) "cmdline"
  return cmdlineText (← Plan.ask (.fetch (s.bucketOr bucket) key))

end Service
end FleetBoot
