import FleetBoot.Address.Parser
import FleetBoot.Address.Printer
import FleetBoot.Text.Blank
import FleetBoot.Text.Search

/-! Blocks of addresses that share their first bits. -/
namespace FleetBoot

/-- The addresses that start with the first `length` bits of `network`, the other bits of which are
zero. -/
structure Cidr where
  network : Address
  length : Nat
  length_le : length ≤ network.width
  kept : network.keep length = network

namespace Cidr

/-- A text that names no block. -/
structure Malformed where
  text : String
  deriving DecidableEq

def Malformed.message (e : Malformed) : String := "invalid CIDR block '" ++ e.text ++ "'"

theorem ext' {c d : Cidr} (hn : c.network = d.network) (hl : c.length = d.length) : c = d := by
  cases c; cases d; cases hn; cases hl; rfl

/-- The block around `a`. -/
def ofAddress? (a : Address) (length : Nat) : Option Cidr :=
  if h : length ≤ a.width then
    some ⟨a.keep length, length, by simpa using h, Address.keep_keep length a⟩
  else none

def textOf (a : Address) (length : Nat) : String :=
  String.ofList (a.chars ++ '/' :: Text.decimal length)

def new (a : Address) (length : Nat) : Except Malformed Cidr :=
  match ofAddress? a length with
  | some c => .ok c
  | none => .error ⟨textOf a length⟩

def text (c : Cidr) : String := textOf c.network c.length

/-- A length below 256, with a plus sign or not. -/
def length? (s : List Char) : Option Nat :=
  match Text.decimal? (match s with | '+' :: r => r | r => r) with
  | some n => if n < 0x100 then some n else none
  | none => none

/-- A block, or an address for the block of it alone. -/
def ofChars? (s : List Char) : Option Cidr :=
  match Text.cutAtChar? '/' s with
  | some (a, n) => do
      let a ← Address.ofChars? a
      let n ← length? n
      ofAddress? a n
  | none => do
      let a ← Address.ofChars? s
      ofAddress? a a.width

def parse? (s : String) : Option Cidr := ofChars? (Text.trimChars s.toList)

def parse (s : String) : Except Malformed Cidr :=
  match parse? s with
  | some c => .ok c
  | none => .error ⟨s⟩

/-- Whether the block holds the address; a wrapped address counts as the shorter one. -/
def contains (c : Cidr) (a : Address) : Bool :=
  c.network.sameFamily a.canonical && a.canonical.keep c.length == c.network

end Cidr
end FleetBoot
