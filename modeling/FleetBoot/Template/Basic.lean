import FleetBoot.Catalog.Codec
import FleetBoot.Json.Printer
import FleetBoot.Text.Blank
import FleetBoot.Text.Search

/-! Boot script templates: text with placeholders between double braces that name the parts of a
boot configuration. -/
namespace FleetBoot.Template

/-- The parts of a boot configuration that are texts. -/
def textNames : List String :=
  ["image_name", "image_bucket", "image_tag", "image_type", "image_cmdline", "hostname"]

/-- The parts that are signed addresses. -/
def urlNames : List String := ["initrd_url", "kernel_url", "rootfs_url", "image_url"]

/-- The two forms of a signed address. -/
def schemeNames : List String := ["https", "http"]

/-- Whether a boot configuration can have a text where these names lead. -/
def isKnown : List String → Bool
  | [name] => textNames.contains name
  | [name, scheme] => urlNames.contains name && schemeNames.contains scheme
  | _ => false

/-- The names in a placeholder, which points divide. -/
def pathOf (s : List Char) : List String := (Text.splitChar '.' s).map String.ofList

inductive Segment where
  | literal (text : List Char)
  | field (path : List String)
  deriving DecidableEq

inductive Fault where
  | unreadable
  | unclosed (offset : Nat)
  | unknownField (name : String)
  deriving DecidableEq

def Fault.message? : Fault → Option String
  | .unreadable => none
  | .unclosed offset => some ("Unclosed placeholder at byte " ++ toString offset)
  | .unknownField name => some ("Unknown template field: " ++ name)

def opening : List Char := ['{', '{']
def closing : List Char := ['}', '}']

def byteSize (s : List Char) : Nat := s.foldr (fun c n => c.utf8Size + n) 0

/-- Text that is not empty is a segment. -/
def literal (s : List Char) (rest : List Segment) : List Segment :=
  if s.isEmpty then rest else .literal s :: rest

/-- The segments of what is left of a source, `offset` bytes of which stand before. -/
def scan (offset : Nat) (s : List Char) : Except Fault (List Segment) :=
  match _ho : Text.cutAt? opening s with
  | none => .ok (literal s [])
  | some (before, inner) =>
      match _hc : Text.cutAt? closing inner with
      | none => .error (.unclosed (offset + byteSize before))
      | some (content, rest) =>
          let name := Text.trimChars content
          if isKnown (pathOf name) then do
            let consumed := byteSize before + 2 + byteSize content + 2
            let more ← scan (offset + consumed) rest
            return literal before (.field (pathOf name) :: more)
          else .error (.unknownField (String.ofList name))
termination_by s.length
decreasing_by
  have h1 := Text.length_of_cutAt? _ho
  have h2 := Text.length_of_cutAt? _hc
  simp [opening, closing] at h1 h2
  omega

end Template

structure Template where
  segments : List Template.Segment
  deriving DecidableEq

namespace Template

def parse (source : String) : Except Fault Template :=
  (scan 0 source.toList).map (⟨·⟩)

/-- A template from a file, which may not be there. -/
def load (file : Option String) : Except Fault Template :=
  match file with
  | none => .error .unreadable
  | some source => parse source

/-- Where the names lead in a JSON value. -/
def lookUp (path : List String) (v : Json) : Option Json :=
  path.foldlM (fun v name => v.member? name) v

/-- A text stands as it is, nothing where there is no value, and any other value as JSON. -/
def shown : Option Json → List Char
  | some (.string s) => s.toList
  | some .null | none => []
  | some v => v.chars

def Segment.render (config : Json) : Segment → List Char
  | .literal s => s
  | .field path => shown (lookUp path config)

/-- The script for one device. -/
def render (t : Template) (c : BootConfig) : String :=
  String.ofList (t.segments.flatMap (·.render c.toJson))

end Template

/-- The template in use where no other is given. -/
def Template.standard : String :=
  "#!ipxe\n\nset hostname \x7b\x7b hostname \x7d\x7d\n" ++
  "echo Booting \x7b\x7b image_name \x7d\x7d (\x7b\x7b image_tag \x7d\x7d/" ++
  "\x7b\x7b image_type \x7d\x7d) on $\x7bhostname\x7d\n\n" ++
  "kernel \x7b\x7b kernel_url.http \x7d\x7d initrd=initrd.img " ++
  "\x7b\x7b image_cmdline \x7d\x7d hostname=$\x7bhostname\x7d\n" ++
  "initrd \x7b\x7b initrd_url.http \x7d\x7d\ninitrd \x7b\x7b rootfs_url.http \x7d\x7d\nboot\n"

end FleetBoot
