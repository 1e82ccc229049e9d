import FleetBoot.Text.Blank
import FleetBoot.Text.Digits
import FleetBoot.Text.Lowercase
import FleetBoot.Text.Search

/-! How a device is named: by its hardware address, or by a host name that ends in the address's
last six digits. -/
namespace FleetBoot

/-- A device's canonical name. A token is one sign of any kind and the `suffix`. -/
inductive Identity where
  | mac (address : String)
  | hostname (token suffix : String)
  deriving DecidableEq

inductive IdentityError where
  | missing
  | invalidLength (raw : String) (length : Nat)
  | invalidHex (raw : String)
  deriving DecidableEq

def IdentityError.message : IdentityError → String
  | .missing => "missing device identity"
  | .invalidLength raw _ =>
      "invalid device identity '" ++ raw ++
        "': expected 12 hex digits or a 7 character hostname"
  | .invalidHex raw => "invalid device identity '" ++ raw ++ "': not a hex address"

namespace Identity

def macLength : Nat := 12
def tokenLength : Nat := 7
def suffixLength : Nat := 6

/-- The sign that host names start with. -/
def sentinel : Char := 'g'

/-- The raw name in small letters without outer blanks, coded colons and then plain colons. -/
def canonical (raw : List Char) : List Char :=
  Text.eraseChar ':' (Text.eraseTriple '%' '3' 'a' (Text.lowerChars (Text.trimChars raw)))

def isHex (s : List Char) : Bool := s.all Text.isHexDigit

def normalizeChars (raw : String) (s : List Char) : Except IdentityError Identity :=
  if s.isEmpty then .error .missing
  else if s.length = macLength then
    if isHex s then .ok (.mac (String.ofList s)) else .error (.invalidHex raw)
  else if s.length = tokenLength then
    if isHex (s.drop 1) then .ok (.hostname (String.ofList s) (String.ofList (s.drop 1)))
    else .error (.invalidHex raw)
  else .error (.invalidLength raw s.length)

/-- The identity that a raw name spells. -/
def normalize (raw : String) : Except IdentityError Identity :=
  normalizeChars raw (canonical raw.toList)

/-- Which of the two kinds of names. -/
inductive Form where
  | mac
  | hostname
  deriving DecidableEq

def form : Identity → Form
  | .mac _ => .mac
  | .hostname _ _ => .hostname

def Form.noun : Form → String
  | .mac => "mac_address"
  | .hostname => "hostname"

/-- The whole address, if the name gives it. -/
def mac? : Identity → Option String
  | .mac address => some address
  | .hostname _ _ => none

def text : Identity → String
  | .mac address => address
  | .hostname token _ => token

/-- The pattern that selects the device's rows, with `%` for any text. -/
def pattern : Identity → String
  | .mac address => address
  | .hostname _ suffix => "%" ++ suffix

/-- Whether the identity names the device with this address. -/
def selects : Identity → String → Bool
  | .mac address, stored => address == stored
  | .hostname _ suffix, stored => suffix.toList.isSuffixOf stored.toList

def byteCount (s : List Char) : Nat := s.foldr (fun c n => c.utf8Size + n) 0

/-- The last `k` bytes, or nothing where they would start inside a character. -/
def lastBytes (k : Nat) : List Char → List Char
  | [] => []
  | c :: s =>
      if byteCount (c :: s) ≤ k then c :: s
      else if byteCount s < k then []
      else lastBytes k s

/-- The name of the host, whatever sign a token starts with. -/
def hostName : Identity → String
  | .mac address => String.ofList (sentinel :: lastBytes suffixLength address.toList)
  | .hostname _ suffix => String.ofList (sentinel :: suffix.toList)

end Identity

/-- The host name for an address of twelve digits. -/
def hostNameOf? (address : String) : Option String :=
  let s := address.toList
  if s.length = Identity.macLength ∧ Identity.isHex s = true then
    some (String.ofList (Identity.sentinel :: s.drop (Identity.macLength - Identity.suffixLength)))
  else none

end FleetBoot
