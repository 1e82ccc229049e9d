/-! What a device can be given, install payloads and boot images, and who is given which. -/
namespace FleetBoot

structure Payload where
  id : String
  directory : String
  deriving DecidableEq

structure ImageKey where
  tag : String
  type : String
  deriving DecidableEq

def ImageKey.text (k : ImageKey) : String := k.tag ++ "/" ++ k.type

/-- By tag, and by type where the tags agree. -/
def ImageKey.le (a b : ImageKey) : Bool :=
  a.tag < b.tag || (a.tag == b.tag && (a.type < b.type || a.type == b.type))

/-- An image's name is where its objects lie in the bucket; `file` names one more object there. -/
structure Image where
  name : String
  bucket : String
  tag : String
  type : String
  cmdline : String
  file : Option String
  deriving DecidableEq

def Image.key (i : Image) : ImageKey := ⟨i.tag, i.type⟩

/-- The two sorts of things that devices are given. -/
inductive Kind where
  | payload
  | image
  deriving DecidableEq

namespace Kind

/-- What names an entry of the catalog. -/
abbrev Key : Kind → Type
  | .payload => String
  | .image => ImageKey

/-- An entry of the catalog. -/
abbrev Entry : Kind → Type
  | .payload => Payload
  | .image => Image

instance : (k : Kind) → DecidableEq k.Key
  | .payload => inferInstanceAs (DecidableEq String)
  | .image => inferInstanceAs (DecidableEq ImageKey)

instance : (k : Kind) → DecidableEq k.Entry
  | .payload => inferInstanceAs (DecidableEq Payload)
  | .image => inferInstanceAs (DecidableEq Image)

def keyOf : {k : Kind} → k.Entry → k.Key
  | .payload, p => p.id
  | .image, i => i.key

def keyText : {k : Kind} → k.Key → String
  | .payload, id => id
  | .image, key => key.text

def keyLe : {k : Kind} → k.Key → k.Key → Bool
  | .payload, a, b => a < b || a == b
  | .image, a, b => a.le b

def noun : Kind → String
  | .payload => "payload"
  | .image => "image"

end Kind

/-- The device with the address `mac` is given the entry with the key. -/
structure Assignment (k : Kind) where
  mac : String
  key : k.Key
  deriving DecidableEq

/-- A device's payload with the place where it lies. -/
structure AssignedPayload where
  mac : String
  id : String
  directory : String
  deriving DecidableEq

def AssignedPayload.new (mac : String) (p : Payload) : AssignedPayload := ⟨mac, p.id, p.directory⟩

/-- What the devices of a network are given when they have nothing of their own. -/
inductive NetworkTarget where
  | payload (id : String)
  | image (key : ImageKey)
  deriving DecidableEq

structure NetworkDefault where
  cidr : String
  target : NetworkTarget
  deriving DecidableEq

end FleetBoot
