import FleetBoot.Toml.Basic
import FleetBoot.Toml.Text

/-! Numbers, dates and times of day in TOML documents. -/
namespace FleetBoot.Toml

/-- Digits with single underscores between them. -/
def digits? (digit? : Char → Option Nat) : List Char → Option (List Nat × List Char)
  | [] => none
  | c :: s => do
      let d ← digit? c
      match s with
      | '_' :: r => do
          let (ds, r) ← digits? digit? r
          return (d :: ds, r)
      | r =>
          match digits? digit? r with
          | some (ds, r) => return (d :: ds, r)
          | none => if (r.head?.bind digit?).isSome then none else return ([d], r)

def sign : List Char → Bool × List Char
  | '-' :: s => (true, s)
  | '+' :: s => (false, s)
  | s => (false, s)

/-- Decimal digits without a leading zero. -/
def whole? (s : List Char) : Option (List Nat × List Char) :=
  match s with
  | '0' :: r => some ([0], r)
  | s => digits? Text.digit? s

def digitBelow (b : Nat) (c : Char) : Option Nat :=
  (Text.hexDigit? c).bind fun d => if d < b then some d else none

/-- A signed integer of 64 bits. -/
def word? (n : Int) : Option Int :=
  if -Int.pow 2 63 ≤ n ∧ n < Int.pow 2 63 then some n else none

/-- A value and what follows it; nothing when the text starts with no such value, and no value when
it starts with a faulty one. -/
abbrev Scan := Option (Option (Node × List Char))

def radix? (b : Nat) (s : List Char) : Option (Node × List Char) := do
  let (ds, r) ← digits? (digitBelow b) s
  return (.integer (← word? (Text.valueOf b ds)), r)

def integer? (s : List Char) : Option (Node × List Char) :=
  match s with
  | '0' :: 'x' :: r => radix? 16 r
  | '0' :: 'o' :: r => radix? 8 r
  | '0' :: 'b' :: r => radix? 2 r
  | s => do
      let (negative, r) := sign s
      let (ds, r) ← whole? r
      let n : Int := Text.valueOf 10 ds
      return (.integer (← word? (if negative then -n else n)), r)

def exponent? : List Char → Option (Int × List Char)
  | c :: s =>
      if c = 'e' ∨ c = 'E' then do
        let (negative, r) := sign s
        let (ds, r) ← digits? Text.digit? r
        let n : Int := Text.valueOf 10 ds
        return (if negative then -n else n, r)
      else none
  | [] => none

/-- `digits · 10 ^ e`, rounded to the nearest. Beyond the exponents that are let through every
number but zero is infinite, or zero. -/
def realOf (negative : Bool) (ds : List Nat) (e : Int) : Float :=
  let e := max (-400 - (ds.length : Int)) (min e 400)
  let x := Float.ofScientific (Text.valueOf 10 ds) (decide (e < 0)) e.natAbs
  if negative then -x else x

/-- A number with a point or an exponent. One that is too large is a fault. -/
def decimal? (s : List Char) : Scan := do
  let (negative, r) := sign s
  let (ds, r) ← whole? r
  let close (ds : List Nat) (e : Int) (r : List Char) : Scan :=
    let x := realOf negative ds e
    some (if x.isInf ∧ ¬ negative then none else some (.float (.ofFloat x), r))
  match exponent? r with
  | some (e, r) => close ds e r
  | none => match r with
    | '.' :: r => do
        let (fs, r) ← digits? Text.digit? r
        match exponent? r with
        | some (e, r) => close (ds ++ fs) (e - fs.length) r
        | none => close (ds ++ fs) (-(fs.length : Int)) r
    | _ => none

/-- Infinity and the value that is no number. -/
def special? (s : List Char) : Option (Node × List Char) :=
  match (sign s).2 with
  | 'i' :: 'n' :: 'f' :: r => some (.float (.ofFloat (1.0 / 0.0)), r)
  | 'n' :: 'a' :: 'n' :: r => some (.float (.ofFloat (0.0 / 0.0)), r)
  | _ => none

/-- A number of exactly so many digits. -/
def fixed? (width : Nat) (s : List Char) : Option (Nat × List Char) := do
  let ds ← (s.take width).mapM Text.digit?
  guard (ds.length = width)
  return (Text.valueOf 10 ds, s.drop width)

def fixedIn? (low high : Nat) (s : List Char) : Option (Nat × List Char) := do
  let (n, r) ← fixed? 2 s
  if low ≤ n ∧ n ≤ high then return (n, r) else none

def daysIn (year month : Nat) : Nat :=
  if month = 2 then if year % 4 = 0 ∧ (year % 100 ≠ 0 ∨ year % 400 = 0) then 29 else 28
  else if month = 4 ∨ month = 6 ∨ month = 9 ∨ month = 11 then 30
  else 31

def dropChar? (c : Char) (s : List Char) : Option (List Char) := Text.dropPrefix? [c] s

/-- What follows the hour and its colon. -/
def restOfTime? (s : List Char) : Option (List Char) := do
  let (_, r) ← fixedIn? 0 59 s
  let r ← dropChar? ':' r
  let (_, r) ← fixedIn? 0 60 r
  match r with
  | '.' :: f =>
      if (f.takeWhile Text.isDigit).isEmpty then return r
      else return f.dropWhile Text.isDigit
  | r => return r

/-- A time of day. It is one as soon as there is an hour with a colon. -/
def time? (s : List Char) : Option (Option (List Char)) := do
  let (_, r) ← fixedIn? 0 23 s
  let r ← dropChar? ':' r
  return restOfTime? r

/-- The distance to universal time, if it is given. -/
def offset? : List Char → Option (List Char)
  | c :: s =>
      if c = 'Z' ∨ c = 'z' then some s
      else if c = '+' ∨ c = '-' then do
        let (_, r) ← fixedIn? 0 23 s
        let r ← dropChar? ':' r
        let (_, r) ← fixedIn? 0 59 r
        return r
      else some (c :: s)
  | [] => some []

/-- What follows the year and its dash. -/
def restOfDate? (year : Nat) (s : List Char) : Option (List Char) := do
  let (month, r) ← fixedIn? 1 12 s
  let r ← dropChar? '-' r
  let (day, r) ← fixedIn? 1 31 r
  guard (day ≤ daysIn year month)
  match r with
  | c :: t =>
      if c = 'T' ∨ c = 't' ∨ c = ' ' then
        match time? t with
        | some found => found.bind offset?
        | none => return r
      else return r
  | [] => return []

/-- A date, a time of day or both. It is a date as soon as there is a year with a dash. -/
def moment? (s : List Char) : Scan :=
  let date : Option (Option (List Char)) := do
    let (year, r) ← fixed? 4 s
    let r ← dropChar? '-' r
    return restOfDate? year r
  match date with
  | some found => some (found.map fun r => (.moment, r))
  | none => (time? s).map fun found => found.map fun r => (.moment, r)

/-- A value that starts with a digit or a sign. -/
def number? (s : List Char) : Option (Node × List Char) :=
  match moment? s with
  | some found => found
  | none => match decimal? s with
    | some found => found
    | none => match special? s with
      | some found => some found
      | none => integer? s

end FleetBoot.Toml
