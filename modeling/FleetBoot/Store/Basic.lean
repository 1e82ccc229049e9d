import FleetBoot.Json.Parser
import FleetBoot.Json.Printer
import FleetBoot.Store.Shelf

/-! The database: a shelf for payloads, one for images, and the parameters of payloads. -/
namespace FleetBoot

/-- A parameter of a payload, as text. -/
structure Parameter where
  payloadId : String
  name : String
  text : String
  deriving DecidableEq

structure Store where
  payloads : Shelf .payload := {}
  images : Shelf .image := {}
  parameters : List Parameter := []

namespace Store

def shelf (s : Store) : (k : Kind) → Shelf k
  | .payload => s.payloads
  | .image => s.images

def withShelf (s : Store) : {k : Kind} → Shelf k → Store
  | .payload, shelf => { s with payloads := shelf }
  | .image, shelf => { s with images := shelf }

@[simp] theorem shelf_withShelf (s : Store) {k : Kind} (shelf : Shelf k) :
    (s.withShelf shelf).shelf k = shelf := by cases k <;> rfl

theorem shelf_withShelf_of_ne (s : Store) {k j : Kind} (shelf : Shelf k) (h : k ≠ j) :
    (s.withShelf shelf).shelf j = s.shelf j := by
  cases k <;> cases j <;> first | rfl | exact absurd rfl h

@[simp] theorem parameters_withShelf (s : Store) {k : Kind} (shelf : Shelf k) :
    (s.withShelf shelf).parameters = s.parameters := by cases k <;> rfl

@[simp] theorem withShelf_shelf (s : Store) (k : Kind) : s.withShelf (s.shelf k) = s := by
  cases k <;> rfl

def register (s : Store) {k : Kind} (entry : k.Entry) : Except StoreError Store :=
  ((s.shelf k).register entry).map s.withShelf

def insert (s : Store) {k : Kind} (row : Assignment k) : Except StoreError Store :=
  ((s.shelf k).insert row).map s.withShelf

def update (s : Store) {k : Kind} (row : Assignment k) : Nat × Store :=
  let (changed, shelf) := (s.shelf k).update row
  (changed, s.withShelf shelf)

/-- Takes an entry out of the catalog, if it is there. -/
def remove (s : Store) (k : Kind) (key : k.Key) : Option k.Entry × Store :=
  match (s.shelf k).lookup? key with
  | some entry => (some entry, s.withShelf ((s.shelf k).remove key))
  | none => (none, s)

def addNetworkRow (s : Store) {k : Kind} (row : NetworkRow k) : Except StoreError Store :=
  ((s.shelf k).addNetwork row).map s.withShelf

/-- Adds a network default under the canonical text of its block. -/
def addNetworkDefault (s : Store) (d : NetworkDefault) : Except StoreError Store :=
  match Cidr.parse d.cidr with
  | .error e => .error (.invalidInput e.message)
  | .ok cidr => match d.target with
    | .payload id => s.addNetworkRow (⟨cidr.text, id⟩ : NetworkRow .payload)
    | .image key => s.addNetworkRow (⟨cidr.text, key⟩ : NetworkRow .image)

def Parameter.names (p : Parameter) (payloadId name : String) : Bool :=
  p.payloadId = payloadId && p.name = name

/-- Sets the text of a parameter, whether it is there or not. -/
def setParameterText (s : Store) (payloadId name text : String) : Store :=
  let new : Parameter := ⟨payloadId, name, text⟩
  if s.parameters.any (Parameter.names · payloadId name) then
    { s with parameters :=
        s.parameters.map fun p => if Parameter.names p payloadId name then new else p }
  else { s with parameters := s.parameters ++ [new] }

def setParameter (s : Store) (payloadId name : String) (value : Json) : Store :=
  s.setParameterText payloadId name value.text

/-- How deep the value of a parameter may nest to be read as one. -/
def parameterDepth : Nat := 127

/-- A parameter's text as a value; a text that is no JSON is a string. -/
def parameterValue (text : String) : Json := (Json.parse? parameterDepth text).getD (.string text)

/-- The parameters of a payload by name, if it has any. -/
def parametersOf? (s : Store) (payloadId : String) : Option Json :=
  match s.parameters.filter (·.payloadId = payloadId) with
  | [] => none
  | ps => some (.ofMembers (ps.map fun p => (p.name, parameterValue p.text)))

end Store
end FleetBoot
