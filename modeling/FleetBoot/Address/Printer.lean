import FleetBoot.Address.Basic
import FleetBoot.Text.Digits

/-! The text of addresses: dotted octets, and groups with the longest row of zeros left out. -/
namespace FleetBoot.Address

/-- Texts with a separator between each two. -/
def joined (sep : Char) : List (List Char) → List Char
  | [] => []
  | [p] => p
  | p :: q :: ps => p ++ sep :: joined sep (q :: ps)

def octetChars (bits : BitVec 32) : List Char := joined '.' ((octets bits).map Text.decimal)

/-- How many zeros the list starts with. -/
def zeroRun (parts : List Nat) : Nat := (parts.takeWhile (· = 0)).length

/-- The place and the length of the first of the longest rows of zeros. -/
def longestZeros (parts : List Nat) : Nat × Nat :=
  (List.range parts.length).foldl
    (fun best i => if best.2 < zeroRun (parts.drop i) then (i, zeroRun (parts.drop i)) else best)
    (0, 0)

def groupChars (parts : List Nat) : List Char := joined ':' (parts.map Text.hexadecimal)

def longChars (bits : BitVec 128) : List Char :=
  match mapped? bits with
  | some short => [':', ':', 'f', 'f', 'f', 'f', ':'] ++ octetChars short
  | none =>
      let parts := groups bits
      let (start, length) := longestZeros parts
      if 1 < length then
        groupChars (parts.take start) ++ [':', ':'] ++ groupChars (parts.drop (start + length))
      else groupChars parts

def chars : Address → List Char
  | .v4 bits => octetChars bits
  | .v6 bits => longChars bits

def text (a : Address) : String := String.ofList a.chars

end FleetBoot.Address
