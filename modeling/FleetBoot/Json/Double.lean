import FleetBoot.Text.Digits

/-! Floating point numbers by their 64 bits, and the shortest decimal that reads back as one. -/
namespace FleetBoot

/-- A binary floating point number of 64 bits. -/
structure Double where
  bits : UInt64
  deriving DecidableEq

namespace Double

def ofFloat (x : Float) : Double := ⟨x.toBits⟩

def negative (x : Double) : Bool := Nat.pow 2 63 ≤ x.bits.toNat

def exponentField (x : Double) : Nat := x.bits.toNat / Nat.pow 2 52 % Nat.pow 2 11

def fraction (x : Double) : Nat := x.bits.toNat % Nat.pow 2 52

def mantissa (x : Double) : Nat :=
  if x.exponentField = 0 then x.fraction else x.fraction + Nat.pow 2 52

/-- The numbers that round to `x`, all over the common `unit`: its value and the two ends, which
belong to them when `closed`. -/
structure Interval where
  low : Nat
  value : Nat
  high : Nat
  unit : Nat
  closed : Bool

/-- The gap below a power of two is half the gap above it. -/
def interval (x : Double) : Interval :=
  let m := x.mantissa
  let e := max x.exponentField 1
  let below := if x.fraction = 0 ∧ 1 < x.exponentField then 1 else 2
  let scale := Nat.pow 2 (e - 1077)
  ⟨(4 * m - below) * scale, 4 * m * scale, (4 * m + 2) * scale, Nat.pow 2 (1077 - e), m % 2 = 0⟩

/-- The decimal number `digits · 10 ^ exponent`. -/
structure Decimal where
  digits : Nat
  exponent : Int

def Interval.contains (i : Interval) (n d : Nat) : Bool :=
  let low := i.low * d
  let high := i.high * d
  let here := n * i.unit
  if i.closed then low ≤ here && here ≤ high else low < here && here < high

/-- Of the two neighbours of the value among the multiples of `10 ^ e` the one that rounds to the
value, the nearer if both do, and the even one if they are as near. -/
def Interval.onGrid (i : Interval) (e : Int) : Option Decimal :=
  let up := Nat.pow 10 e.toNat
  let down := Nat.pow 10 (-e).toNat
  let floor := i.value * down / (i.unit * up)
  let twice := 2 * (i.value * down - floor * (i.unit * up))
  let hit (n : Nat) := i.contains (n * up) down
  match hit floor, hit (floor + 1) with
  | true, true =>
      if twice < i.unit * up ∨ (twice = i.unit * up ∧ floor % 2 = 0) then some ⟨floor, e⟩
      else some ⟨floor + 1, e⟩
  | true, false => some ⟨floor, e⟩
  | false, true => some ⟨floor + 1, e⟩
  | false, false => none

/-- The least power of ten above the value, counted up from `10 ^ -k`. -/
def Interval.power (i : Interval) : Nat → Int → Int
  | 0, p => p
  | fuel + 1, p =>
      if i.value * Nat.pow 10 (-p).toNat < i.unit * Nat.pow 10 p.toNat then p
      else i.power fuel (p + 1)

/-- The fewest digits that read back as the number. -/
def shortest (x : Double) : Decimal :=
  let i := x.interval
  let p := i.power 640 (-330)
  ((List.range 17).findSome? fun (n : Nat) => i.onGrid (p - (n + 1))).getD ⟨0, 0⟩

def stripZeros : Nat → Decimal → Decimal
  | 0, d => d
  | fuel + 1, d =>
      if d.digits ≠ 0 ∧ d.digits % 10 = 0 then stripZeros fuel ⟨d.digits / 10, d.exponent + 1⟩
      else d

def Decimal.intText (n : Int) : List Char :=
  if n < 0 then '-' :: Text.decimal n.natAbs else Text.decimal n.natAbs

/-- A positive decimal: positional with a point below 10¹⁶ and down to 10⁻⁵, with an exponent
outside. -/
def Decimal.text (d : Decimal) : List Char :=
  let d := stripZeros 20 d
  let ds := Text.decimal d.digits
  let point := d.exponent + ds.length
  if 0 ≤ d.exponent ∧ point ≤ 16 then
    ds ++ List.replicate d.exponent.toNat '0' ++ ['.', '0']
  else if 0 < point ∧ point ≤ 16 then
    ds.take point.toNat ++ '.' :: ds.drop point.toNat
  else if -5 < point ∧ point ≤ 0 then
    ['0', '.'] ++ List.replicate (-point).toNat '0' ++ ds
  else
    (match ds with
      | [] => []
      | [c] => [c]
      | c :: rest => c :: '.' :: rest) ++ 'e' :: intText (point - 1)

/-- The number in decimal, with its sign also on zero. -/
def text (x : Double) : List Char :=
  let body := if x.mantissa = 0 ∧ x.exponentField = 0 then ['0', '.', '0'] else x.shortest.text
  if x.negative then '-' :: body else body

end Double
end FleetBoot
