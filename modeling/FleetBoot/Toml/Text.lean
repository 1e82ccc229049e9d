import FleetBoot.Text.Digits
import FleetBoot.Text.Search

/-! The texts of TOML documents: blanks, comments, keys and the four sorts of strings. -/
namespace FleetBoot.Toml

def skipBlanks : List Char → List Char
  | c :: s => if c = ' ' ∨ c = '\t' then skipBlanks s else c :: s
  | [] => []

/-- What follows the end of a line. -/
def newline? : List Char → Option (List Char)
  | '\n' :: s => some s
  | '\r' :: '\n' :: s => some s
  | _ => none

/-- Characters that need no escape. Of the control characters only the tab is one. -/
def isPlain (c : Char) : Bool := c = '\t' || (0x20 ≤ c.toNat && c.toNat ≠ 0x7F)

/-- What follows a comment, if there is one. -/
def skipComment : List Char → List Char
  | '#' :: s => s.dropWhile isPlain
  | s => s

/-- The end of a statement: blanks, a comment, and the end of the line or of the document. -/
def endOfLine? (s : List Char) : Option (List Char) :=
  match skipComment (skipBlanks s) with
  | [] => some []
  | r => newline? r

/-- Blanks, comments and ends of lines between the items of an array. -/
def skipLines : Nat → List Char → List Char
  | 0, s => s
  | fuel + 1, s =>
      match newline? (skipComment (skipBlanks s)) with
      | some r => skipLines fuel r
      | none => skipBlanks s

def scalar? (n : Nat) : Option Char := if n.isValidChar then some (Char.ofNat n) else none

/-- A character by its number in so many hexadecimal digits. -/
def numbered? (width : Nat) (s : List Char) : Option (Char × List Char) := do
  let ds ← (s.take width).mapM Text.hexDigit?
  guard (ds.length = width)
  return (← scalar? (Text.valueOf 16 ds), s.drop width)

/-- What follows a backslash. -/
def escaped? : List Char → Option (Char × List Char)
  | 'b' :: s => some (Char.ofNat 8, s)
  | 'f' :: s => some (Char.ofNat 12, s)
  | 'n' :: s => some ('\n', s)
  | 'r' :: s => some ('\r', s)
  | 't' :: s => some ('\t', s)
  | '"' :: s => some ('"', s)
  | '\\' :: s => some ('\\', s)
  | 'u' :: s => numbered? 4 s
  | 'U' :: s => numbered? 8 s
  | _ => none

/-- The rest of a string in double quotes. -/
def basicBody? : Nat → List Char → Option (List Char × List Char)
  | 0, _ => none
  | _ + 1, [] => none
  | fuel + 1, c :: s =>
      if c = '"' then some ([], s)
      else if c = '\\' then do
        let (x, r) ← escaped? s
        let (xs, r) ← basicBody? fuel r
        return (x :: xs, r)
      else if isPlain c then do
        let (xs, r) ← basicBody? fuel s
        return (c :: xs, r)
      else none

/-- The rest of a string in single quotes, which has no escapes. -/
def literalBody? : List Char → Option (List Char × List Char)
  | [] => none
  | c :: s =>
      if c = Char.ofNat 0x27 then some ([], s)
      else if isPlain c then (literalBody? s).map fun (xs, r) => (c :: xs, r)
      else none

/-- Three quotes, and up to two more before them that belong to the string. -/
def closing? (q : Char) (s : List Char) : Option (List Char × List Char) :=
  let quotes := (s.takeWhile (· = q)).length
  if 3 ≤ quotes ∧ quotes ≤ 5 then some (List.replicate (quotes - 3) q, s.drop quotes)
  else none

/-- The next line with anything on it, after a backslash that ends its line. -/
def joinLines? (fuel : Nat) (s : List Char) : Option (List Char) :=
  (newline? (skipBlanks s)).map (skipEmpty fuel)
where
  skipEmpty : Nat → List Char → List Char
    | 0, r => r
    | fuel + 1, r =>
        match newline? (skipBlanks r) with
        | some r => skipEmpty fuel r
        | none => skipBlanks r

/-- The rest of a string of several lines; with `escapes` a backslash starts one. -/
def linesBody? (q : Char) (escapes : Bool) : Nat → List Char → Option (List Char × List Char)
  | 0, _ => none
  | _ + 1, [] => none
  | fuel + 1, c :: s =>
      if c = q then
        match closing? q (c :: s) with
        | some found => some found
        | none =>
            if 3 ≤ ((c :: s).takeWhile (· = q)).length then none
            else (linesBody? q escapes fuel s).map fun (xs, r) => (c :: xs, r)
      else match newline? (c :: s) with
        | some r => (linesBody? q escapes fuel r).map fun (xs, r) => ('\n' :: xs, r)
        | none =>
            if escapes ∧ c = '\\' then
              match joinLines? fuel s with
              | some r => linesBody? q escapes fuel r
              | none => do
                  let (x, r) ← escaped? s
                  let (xs, r) ← linesBody? q escapes fuel r
                  return (x :: xs, r)
            else if isPlain c then
              (linesBody? q escapes fuel s).map fun (xs, r) => (c :: xs, r)
            else none

/-- A line end right after the opening quotes is no part of the string. -/
def afterOpening (s : List Char) : List Char := (newline? s).getD s

def single : Char := Char.ofNat 0x27

/-- A string of one line. -/
def lineString? (s : List Char) : Option (List Char × List Char) :=
  match s with
  | [] => none
  | c :: r =>
      if c = '"' then basicBody? (r.length + 1) r
      else if c = single then literalBody? r
      else none

/-- A string of any sort. -/
def string? (s : List Char) : Option (List Char × List Char) :=
  let lines (q : Char) (escapes : Bool) := do
    let r ← Text.dropPrefix? [q, q, q] s
    some (linesBody? q escapes (r.length + 1) (afterOpening r))
  match lines '"' true with
  | some found => found
  | none => match lines single false with
    | some found => found
    | none => lineString? s

def isBareKey (c : Char) : Bool := c.isAlphanum || c = '_' || c = '-'

def simpleKey? (s : List Char) : Option (String × List Char) :=
  match lineString? s with
  | some (k, r) => some (String.ofList k, r)
  | none =>
      let k := s.takeWhile isBareKey
      if k.isEmpty then none else some (String.ofList k, s.drop k.length)

/-- Parts of a key with dots between them. -/
def keyParts? : Nat → List Char → Option (List String × List Char)
  | 0, _ => none
  | fuel + 1, s => do
      let (k, r) ← simpleKey? (skipBlanks s)
      match skipBlanks r with
      | '.' :: r => do
          let (ks, r) ← keyParts? fuel r
          return (k :: ks, r)
      | r => return ([k], r)

/-- How deep keys and values nest. -/
def nesting : Nat := 79

/-- A key: the tables it passes and its last part. -/
def key? (s : List Char) : Option (List String × String × List Char) := do
  let (parts, r) ← keyParts? nesting s
  let last ← parts.getLast?
  return (parts.dropLast, last, r)

end FleetBoot.Toml
