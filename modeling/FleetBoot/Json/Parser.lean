import FleetBoot.Json.Numeral
import FleetBoot.Text.Search

/-! Reading JSON text. Values nest to a depth that the reader sets. -/
namespace FleetBoot.Json

def skipSpace : List Char → List Char
  | c :: s => if c = ' ' ∨ c = '\n' ∨ c = '\t' ∨ c = '\r' then skipSpace s else c :: s
  | [] => []

/-- Four hexadecimal digits. -/
def hexUnit? : List Char → Option (Nat × List Char)
  | a :: b :: c :: d :: s => do
      let ds ← [a, b, c, d].mapM Text.hexDigit?
      return (Text.valueOf 16 ds, s)
  | _ => none

/-- What follows `\u`: one unit, or two that are halves of a character. -/
def escapedUnit? (s : List Char) : Option (Char × List Char) := do
  let (n, r) ← hexUnit? s
  if 0xDC00 ≤ n ∧ n ≤ 0xDFFF then none
  else if 0xD800 ≤ n ∧ n ≤ 0xDBFF then
    match r with
    | '\\' :: 'u' :: r => do
        let (m, r) ← hexUnit? r
        if 0xDC00 ≤ m ∧ m ≤ 0xDFFF then
          return (Char.ofNat (0x10000 + (n - 0xD800) * 0x400 + (m - 0xDC00)), r)
        else none
    | _ => none
  else return (Char.ofNat n, r)

/-- What follows a backslash. -/
def escaped? : List Char → Option (Char × List Char)
  | 'u' :: s => escapedUnit? s
  | '"' :: s => some ('"', s)
  | '\\' :: s => some ('\\', s)
  | '/' :: s => some ('/', s)
  | 'b' :: s => some (Char.ofNat 8, s)
  | 'f' :: s => some (Char.ofNat 12, s)
  | 'n' :: s => some ('\n', s)
  | 'r' :: s => some ('\r', s)
  | 't' :: s => some ('\t', s)
  | _ => none

/-- The rest of a string after its opening quote. -/
def stringBody : Nat → List Char → Option (List Char × List Char)
  | 0, _ => none
  | _ + 1, [] => none
  | fuel + 1, c :: s =>
      if c = '"' then some ([], s)
      else if c = '\\' then do
        let (x, r) ← escaped? s
        let (xs, r) ← stringBody fuel r
        return (x :: xs, r)
      else if c.toNat < 0x20 then none
      else do
        let (xs, r) ← stringBody fuel s
        return (c :: xs, r)

def string? (fuel : Nat) (s : List Char) : Option (String × List Char) := do
  let (xs, r) ← stringBody fuel s
  return (String.ofList xs, r)

def literal? (w : List Char) (v : Json) (s : List Char) : Option (Json × List Char) :=
  if s.take w.length = w then some (v, s.drop w.length) else none

mutual

/-- One value at the start of the text, with at most `depth` levels of arrays and objects. -/
def value? : Nat → Nat → List Char → Option (Json × List Char)
  | 0, _, _ => none
  | _ + 1, _, [] => none
  | fuel + 1, depth, c :: s =>
      if c = '"' then (string? fuel s).map fun (x, r) => (.string x, r)
      else if c = '[' then
        match depth with
        | 0 => none
        | depth + 1 => (items? fuel depth true (skipSpace s)).map fun (xs, r) => (.array xs, r)
      else if c = '{' then
        match depth with
        | 0 => none
        | depth + 1 =>
            (members? fuel depth true (skipSpace s)).map fun (ms, r) => (ofMembers ms, r)
      else if c = 'n' then literal? ['u', 'l', 'l'] .null s
      else if c = 't' then literal? ['r', 'u', 'e'] (.bool true) s
      else if c = 'f' then literal? ['a', 'l', 's', 'e'] (.bool false) s
      else do
        let (x, r) ← Numeral.read (c :: s)
        let n ← x.number?
        return (.number n, r)

/-- The items up to the closing bracket; `first` when none stands before. -/
def items? : Nat → Nat → Bool → List Char → Option (List Json × List Char)
  | 0, _, _, _ => none
  | fuel + 1, depth, first, s =>
      match s with
      | [] => none
      | c :: r =>
          if c = ']' then some ([], r)
          else do
            let s ← if first then some s else if c = ',' then some (skipSpace r) else none
            let (v, r) ← value? fuel depth s
            let (vs, r) ← items? fuel depth false (skipSpace r)
            return (v :: vs, r)

/-- The members up to the closing brace; `first` when none stands before. -/
def members? : Nat → Nat → Bool → List Char → Option (List (String × Json) × List Char)
  | 0, _, _, _ => none
  | fuel + 1, depth, first, s =>
      match s with
      | [] => none
      | c :: r =>
          if c = '}' then some ([], r)
          else do
            let s ← if first then some s else if c = ',' then some (skipSpace r) else none
            let s ← Text.dropPrefix? ['"'] s
            let (n, r) ← string? fuel s
            let r ← Text.dropPrefix? [':'] (skipSpace r)
            let (v, r) ← value? fuel depth (skipSpace r)
            let (ms, r) ← members? fuel depth false (skipSpace r)
            return ((n, v) :: ms, r)

end

/-- The value that the whole text spells. -/
def parse? (depth : Nat) (s : String) : Option Json := do
  let s := skipSpace s.toList
  let (v, r) ← value? (2 * s.length + 2) depth s
  if (skipSpace r).isEmpty then return v else none

end FleetBoot.Json
