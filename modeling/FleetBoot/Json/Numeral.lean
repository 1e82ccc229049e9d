import FleetBoot.Json.Basic

/-! Numbers in JSON text: the spelling, and the value it has. An integer that fits in 64 bits, with
or without sign, keeps its value; any other number is a floating point number. -/
namespace FleetBoot

/-- The spelling of a number, in digits. -/
structure Numeral where
  negative : Bool
  whole : List Nat
  fraction : Option (List Nat)
  exponent : Option (Bool × List Nat)

namespace Numeral

/-- The digits at the start of the text. -/
def digits : List Char → List Nat × List Char
  | [] => ([], [])
  | c :: s =>
      match Text.digit? c with
      | some d => (d :: (digits s).1, (digits s).2)
      | none => ([], c :: s)

def sign : List Char → Bool × List Char
  | '-' :: s => (true, s)
  | '+' :: s => (false, s)
  | s => (false, s)

def readFraction : List Char → Option (Option (List Nat) × List Char)
  | '.' :: s =>
      match digits s with
      | ([], _) => none
      | (ds, r) => some (some ds, r)
  | s => some (none, s)

def readExponent : List Char → Option (Option (Bool × List Nat) × List Char)
  | c :: s =>
      if c = 'e' ∨ c = 'E' then
        match digits (sign s).2 with
        | ([], _) => none
        | (ds, r) => some (some ((sign s).1, ds), r)
      else some (none, c :: s)
  | [] => some (none, [])

/-- Reads one spelling. No zero stands before another digit. -/
def read (s : List Char) : Option (Numeral × List Char) :=
  let (negative, body) := match s with
    | '-' :: r => (true, r)
    | r => (false, r)
  match digits body with
  | ([], _) => none
  | (0 :: _ :: _, _) => none
  | (whole, r) => do
      let (fraction, r) ← readFraction r
      let (exponent, r) ← readExponent r
      return (⟨negative, whole, fraction, exponent⟩, r)

def limit : Nat := Nat.pow 2 64 - 1

/-- Adds digits to `n` until one would pass the limit: the number so far and the digits left. -/
def accumulate (n : Nat) : List Nat → Nat × List Nat
  | [] => (n, [])
  | d :: ds => if n * 10 + d ≤ limit then accumulate (n * 10 + d) ds else (n, d :: ds)

/-- The leading digits as one number, and the power of ten to scale it by. Digits past the limit
count as zeros. -/
def scaled (x : Numeral) : Nat × Int :=
  let (n, left) := accumulate 0 x.whole
  let fraction := x.fraction.getD []
  let (m, unread) := accumulate n fraction
  let e : Int := match x.exponent with
    | none => 0
    | some (true, ds) => -(Text.valueOf 10 ds : Int)
    | some (false, ds) => Text.valueOf 10 ds
  (m, (left.length : Int) - (fraction.length - unread.length : Nat) + e)

/-- `x · 10 ^ e` by one multiplication or division in floating point for each 308 places, or
nothing when it is too large. -/
def scale (x : Float) (e : Int) : Option Float :=
  if e.natAbs ≤ 308 then
    let power := Float.ofScientific 1 false e.natAbs
    if 0 ≤ e then
      if (x * power).isInf then none else some (x * power)
    else some (x / power)
  else if x == 0.0 then some x
  else if _h : 0 ≤ e then none
  else scale (x / Float.ofScientific 1 false 308) (e + 308)
termination_by (-e).toNat
decreasing_by omega

def real? (x : Numeral) : Option Double := do
  let (m, e) := x.scaled
  let value ← scale m.toUInt64.toFloat e
  return .ofFloat (if x.negative then -value else value)

/-- The value, or nothing when it is too large for a floating point number. A zero with a minus
sign is a floating point number. -/
def number? (x : Numeral) : Option Number :=
  let n := Text.valueOf 10 x.whole
  if x.fraction.isNone ∧ x.exponent.isNone ∧ n ≤ limit ∧
      (x.negative = false ∨ (0 < n ∧ n ≤ Nat.pow 2 63)) then
    some (.integer (if x.negative then -(n : Int) else n))
  else x.real?.map .real

end Numeral
end FleetBoot
