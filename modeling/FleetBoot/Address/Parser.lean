import FleetBoot.Address.Basic
import FleetBoot.Text.Digits

/-! Reading addresses. Octets have no leading zeros; two colons stand for one group of zeros or
more; the last two groups may be written as octets. -/
namespace FleetBoot.Address

/-- The digits that the text starts with, by `digit?`. -/
def spanDigits (digit? : Char → Option Nat) : List Char → List Nat × List Char
  | [] => ([], [])
  | c :: s => match digit? c with
    | some d => (d :: (spanDigits digit? s).1, (spanDigits digit? s).2)
    | none => ([], c :: s)

def octet? (s : List Char) : Option (Nat × List Char) :=
  match spanDigits Text.digit? s with
  | ([], _) => none
  | (0 :: _ :: _, _) => none
  | (ds, r) =>
      if ds.length ≤ 3 ∧ Text.valueOf 10 ds < 0x100 then some (Text.valueOf 10 ds, r) else none

def group? (s : List Char) : Option (Nat × List Char) :=
  match spanDigits Text.hexDigit? s with
  | ([], _) => none
  | (ds, r) => if ds.length ≤ 4 then some (Text.valueOf 16 ds, r) else none

/-- What follows the separator; before the first part there is none. -/
def separated? (sep : Char) (first : Bool) (s : List Char) : Option (List Char) :=
  if first then some s
  else match s with
    | [] => none
    | c :: r => if c = sep then some r else none

/-- So many octets. -/
def octets? : Nat → Bool → List Char → Option (List Nat × List Char)
  | 0, _, s => some ([], s)
  | n + 1, first, s => do
      let s ← separated? '.' first s
      let (p, r) ← octet? s
      let (ps, r) ← octets? n false r
      return (p :: ps, r)

/-- The two groups that four octets make. -/
def pairUp : List Nat → List Nat
  | [a, b, c, d] => [a * 0x100 + b, c * 0x100 + d]
  | _ => []

/-- The groups at the start of a text, at most `n` of them, and whether the last two are octets. -/
def readGroups : Nat → Bool → List Char → List Nat × Bool × List Char
  | 0, _, s => ([], false, s)
  | n + 1, first, s =>
      let short := if n = 0 then none else (separated? ':' first s).bind (octets? 4 true)
      match short with
      | some (ps, r) => (pairUp ps, true, r)
      | none => match (separated? ':' first s).bind group? with
        | none => ([], false, s)
        | some (g, r) =>
            let (gs, short, r) := readGroups n false r
            (g :: gs, short, r)

def long? (s : List Char) : Option (BitVec 128) :=
  match readGroups 8 true s with
  | (head, short, r) =>
      if head.length = 8 then if r.isEmpty then some (ofGroups head) else none
      else if short then none
      else match r with
        | ':' :: ':' :: r =>
            let (tail, _, r) := readGroups (7 - head.length) true r
            if r.isEmpty then
              some (ofGroups (head ++ List.replicate (8 - head.length - tail.length) 0 ++ tail))
            else none
        | _ => none

def short? (s : List Char) : Option (BitVec 32) :=
  match octets? 4 true s with
  | some (ps, []) => some (ofOctets ps)
  | _ => none

def ofChars? (s : List Char) : Option Address :=
  match short? s with
  | some bits => some (.v4 bits)
  | none => (long? s).map .v6

def parse? (s : String) : Option Address := ofChars? s.toList

end FleetBoot.Address
