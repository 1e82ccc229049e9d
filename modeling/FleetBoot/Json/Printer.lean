import FleetBoot.Json.Basic

/-! The compact text of a JSON value. -/
namespace FleetBoot

def Number.text : Number → List Char
  | .integer n => Double.Decimal.intText n
  | .real x => x.text

namespace Json

/-- Quotes, backslashes and control characters are escaped, by a letter where one is set aside. -/
def escape (c : Char) : List Char :=
  if c = '"' then ['\\', '"']
  else if c = '\\' then ['\\', '\\']
  else if c = '\n' then ['\\', 'n']
  else if c = '\r' then ['\\', 'r']
  else if c = '\t' then ['\\', 't']
  else if c.toNat = 8 then ['\\', 'b']
  else if c.toNat = 12 then ['\\', 'f']
  else if c.toNat < 0x20 then '\\' :: 'u' :: Text.hexPadded 4 c.toNat
  else [c]

def quote (s : String) : List Char := '"' :: s.toList.flatMap escape ++ ['"']

mutual

def chars : Json → List Char
  | .null => ['n', 'u', 'l', 'l']
  | .bool true => ['t', 'r', 'u', 'e']
  | .bool false => ['f', 'a', 'l', 's', 'e']
  | .number n => n.text
  | .string s => quote s
  | .array items => '[' :: itemChars items ++ [']']
  | .object members => '{' :: memberChars members ++ ['}']

def itemChars : List Json → List Char
  | [] => []
  | [v] => chars v
  | v :: w :: rest => chars v ++ ',' :: itemChars (w :: rest)

def memberChars : List (String × Json) → List Char
  | [] => []
  | [(n, v)] => quote n ++ ':' :: chars v
  | (n, v) :: m :: rest => quote n ++ ':' :: chars v ++ ',' :: memberChars (m :: rest)

end

def text (v : Json) : String := String.ofList v.chars

end Json
end FleetBoot
