import FleetBoot.Config.Codec
import FleetBoot.Toml.Parser

/-! Settings from a file and the environment. -/
namespace FleetBoot.Config

/-- The settings of a TOML document. An array may stand for a section; what it has too much is
ignored. -/
def ofToml? (document : String) : Option Config := do
  let members ← Toml.parse? document
  read? true (.object (Toml.membersJson members))

inductive LoadError where
  | unreadable
  | malformed
  | invalid (fault : Invalid)
  deriving DecidableEq

/-- Where the settings come from: nowhere, a file that cannot be read, or one that holds a text. -/
inductive Source where
  | none
  | missing
  | document (text : String)

def Source.read : Source → Except LoadError Config
  | .none => .ok {}
  | .missing => .error .unreadable
  | .document text =>
      match ofToml? text with
      | some c => .ok c
      | Option.none => .error .malformed

/-- The settings as they are used: read, replaced from the environment, and found valid. -/
def load (source : Source) (env : String → Option String) : Except LoadError Config := do
  let c ← source.read
  let c := c.override env
  match c.fault? with
  | some e => .error (.invalid e)
  | Option.none => .ok c

end FleetBoot.Config
