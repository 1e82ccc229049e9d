/-! Decimal and hexadecimal digits, one at a time and as numerals. -/
namespace FleetBoot.Text

/-- The value of an ASCII decimal digit. -/
def digit? (c : Char) : Option Nat :=
  if '0' ≤ c ∧ c ≤ '9' then some (c.toNat - '0'.toNat) else none

/-- The value of an ASCII hexadecimal digit in either case. -/
def hexDigit? (c : Char) : Option Nat :=
  if '0' ≤ c ∧ c ≤ '9' then some (c.toNat - '0'.toNat)
  else if 'a' ≤ c ∧ c ≤ 'f' then some (c.toNat - 'a'.toNat + 10)
  else if 'A' ≤ c ∧ c ≤ 'F' then some (c.toNat - 'A'.toNat + 10)
  else none

def isDigit (c : Char) : Bool := (digit? c).isSome
def isHexDigit (c : Char) : Bool := (hexDigit? c).isSome

/-- The small digit character of a value below 16. -/
def digitChar (n : Nat) : Char :=
  if n < 10 then Char.ofNat ('0'.toNat + n) else Char.ofNat ('a'.toNat + (n - 10))

/-- The numeral of `n` in base `b`, without leading zeros. -/
def numeral (b n : Nat) : List Char :=
  if _h : n < b ∨ b < 2 then [digitChar n]
  else numeral b (n / b) ++ [digitChar (n % b)]
termination_by n
decreasing_by exact Nat.div_lt_self (by omega) (by omega)

def decimal (n : Nat) : List Char := numeral 10 n
def hexadecimal (n : Nat) : List Char := numeral 16 n

/-- The value of a row of digits in base `b`, most significant first. -/
def valueOf (b : Nat) (ds : List Nat) : Nat := ds.foldl (fun n d => n * b + d) 0

/-- The value of a numeral that holds digits only, and at least one. -/
def decimal? (s : List Char) : Option Nat :=
  if s.isEmpty then none else (s.mapM digit?).map (valueOf 10)

/-- `n` in exactly `width` hexadecimal digits, cutting off what does not fit. -/
def hexPadded (width n : Nat) : List Char :=
  match width with
  | 0 => []
  | w + 1 => hexPadded w (n / 16) ++ [digitChar (n % 16)]

/-- The bytes that a row of digit pairs spells. -/
def hexBytes? : List Char → Option (List UInt8)
  | [] => some []
  | [_] => none
  | a :: b :: s => do
      let hi ← hexDigit? a
      let lo ← hexDigit? b
      let rest ← hexBytes? s
      return UInt8.ofNat (hi * 16 + lo) :: rest

def hexOfBytes (bs : List UInt8) : List Char := bs.flatMap fun b => hexPadded 2 b.toNat

end FleetBoot.Text
