import FleetBoot.Text.Digits
import FleetBoot.Text.Utf8

/-! Percent coding of bytes in addresses. -/
namespace FleetBoot.Text

/-- The byte that `%` and two hexadecimal digits stand for. -/
def escapedByte? (a b c : UInt8) : Option UInt8 :=
  if a.toNat = '%'.toNat then do
    let hi ← hexDigit? (Char.ofNat b.toNat)
    let lo ← hexDigit? (Char.ofNat c.toNat)
    return UInt8.ofNat (hi * 16 + lo)
  else none

/-- Turns each `%` with two hexadecimal digits into its byte; any other `%` stays. -/
def percentDecode : List UInt8 → List UInt8
  | a :: b :: c :: s =>
      match escapedByte? a b c with
      | some byte => byte :: percentDecode s
      | none => a :: percentDecode (b :: c :: s)
  | s => s

/-- The text that a percent coded text stands for, unless it is not UTF-8. -/
def percentText? (s : List Char) : Option (List Char) :=
  utf8Decode? (percentDecode (utf8Encode s))

/-- The characters that need no coding. -/
def isUnreserved (c : Char) : Bool :=
  c.isAlphanum || c == '-' || c == '.' || c == '_' || c == '~'

/-- A text with each byte coded, in capitals, of characters that are neither unreserved nor `/`. -/
def percentEncode (s : List Char) : List Char :=
  s.flatMap fun c =>
    if isUnreserved c || c == '/' then [c]
    else (utf8Bytes c).flatMap fun b => '%' :: (hexPadded 2 b.toNat).map Char.toUpper

end FleetBoot.Text
