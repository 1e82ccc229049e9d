import FleetBoot.Address.Cidr
import FleetBoot.Identity
import FleetBoot.Store.Error

/-! The three tables for one kind: the catalog, what devices are given, and what networks are given.
Rows stand in the order in which they were added. -/
namespace FleetBoot

/-- The default of the network that `subnet` spells. -/
structure NetworkRow (k : Kind) where
  subnet : String
  key : k.Key
  deriving DecidableEq

structure Shelf (k : Kind) where
  catalog : List k.Entry := []
  assignments : List (Assignment k) := []
  networks : List (NetworkRow k) := []

/-- A device's row with its catalog entry, if the catalog still has it. -/
structure StoredRow (k : Kind) where
  row : Assignment k
  entry : Option k.Entry

namespace Shelf
variable {k : Kind}

def lookup? (s : Shelf k) (key : k.Key) : Option k.Entry :=
  s.catalog.find? fun e => Kind.keyOf e = key

def row? (s : Shelf k) (mac : String) : Option (Assignment k) :=
  s.assignments.find? fun a => a.mac = mac

def hydrate (s : Shelf k) (row : Assignment k) : StoredRow k := ⟨row, s.lookup? row.key⟩

/-- Adds a catalog entry under a key that is not taken. -/
def register (s : Shelf k) (entry : k.Entry) : Except StoreError (Shelf k) :=
  match s.lookup? (Kind.keyOf entry) with
  | some _ => .error (.occupied (.catalog k))
  | none => .ok { s with catalog := s.catalog ++ [entry] }

/-- Takes an entry out of the catalog. Rows that point at it stay. -/
def remove (s : Shelf k) (key : k.Key) : Shelf k :=
  { s with catalog := s.catalog.filter fun e => Kind.keyOf e ≠ key }

/-- Adds the row of a device that has none. -/
def insert (s : Shelf k) (row : Assignment k) : Except StoreError (Shelf k) :=
  match s.row? row.mac with
  | some _ => .error (.occupied (.assignments k))
  | none => .ok { s with assignments := s.assignments ++ [row] }

/-- Changes the row of a device that has one, and says how many rows it changed. -/
def update (s : Shelf k) (row : Assignment k) : Nat × Shelf k :=
  ((s.assignments.filter fun a => a.mac = row.mac).length,
    { s with assignments := s.assignments.map fun a => if a.mac = row.mac then row else a })

/-- Adds the default of a network that has none under this spelling. -/
def addNetwork (s : Shelf k) (row : NetworkRow k) : Except StoreError (Shelf k) :=
  if s.networks.any fun n => n.subnet = row.subnet then .error (.occupied (.networks k))
  else .ok { s with networks := s.networks ++ [row] }

/-- The keys of the catalog, in order. -/
def available (s : Shelf k) : List k.Key := (s.catalog.map Kind.keyOf).mergeSort Kind.keyLe

end Shelf

/-- Whether two characters are the same but for the case of ASCII letters. -/
def sameLetter (a b : Char) : Bool := a.toLower = b.toLower

def suffixes {α : Type} : List α → List (List α)
  | [] => [[]]
  | a :: s => (a :: s) :: suffixes s

/-- Whether a pattern covers a text: `%` covers any text, `_` any one character, and a letter itself
in either case. -/
def covers : List Char → List Char → Bool
  | [], s => s.isEmpty
  | c :: p, s =>
      if c = '%' then (suffixes s).any (covers p)
      else match s with
        | [] => false
        | d :: s => (c = '_' || sameLetter c d) && covers p s

/-- Whether a query by the identity finds a row. A token finds rows by its pattern, which sees an
address up to its first NUL. -/
def Identity.finds : Identity → String → Bool
  | .mac address, stored => address == stored
  | .hostname token suffix, stored =>
      covers (Identity.hostname token suffix).pattern.toList
        (stored.toList.takeWhile (·.toNat ≠ 0))

namespace Shelf
variable {k : Kind}

def macLe (a b : Assignment k) : Bool := a.mac < b.mac || a.mac == b.mac

/-- The first rows by address that the identity finds. -/
def find (s : Shelf k) (identity : Identity) (limit : Nat) : List (StoredRow k) :=
  (((s.assignments.filter fun a => identity.finds a.mac).mergeSort macLe).take limit).map s.hydrate

/-- The length of the block and the catalog entry of a row that covers the address. Rows without
an entry or with a spelling that names no block cover nothing. -/
def covering (s : Shelf k) (ip : Address) (row : NetworkRow k) : Option (Nat × k.Entry) := do
  let entry ← s.lookup? row.key
  let cidr ← Cidr.parse? row.subnet
  if cidr.contains ip then return (cidr.length, entry) else none

/-- The longer of two blocks; the later one if they are as long. -/
def longer {α : Type} (best : Option (Nat × α)) (next : Nat × α) : Option (Nat × α) :=
  match best with
  | some b => if next.1 < b.1 then some b else some next
  | none => some next

/-- What the smallest network around the address is given. -/
def networkDefault (s : Shelf k) (ip : Address) : Option k.Entry :=
  ((s.networks.filterMap (s.covering ip)).foldl longer none).map (·.2)

end Shelf
end FleetBoot
