import FleetBoot.Text.CaseTable

/-! Lower case by the full Unicode mapping: a letter may become two, and a capital sigma that ends a
word becomes the final one. -/
namespace FleetBoot.Text

/-- Letters with a case. The set is cut down to ASCII, which is all that an address can have around
a capital sigma. -/
def isCased (c : Char) : Bool := c.isAlpha

/-- Signs that may stand inside a word. The set is cut down to ASCII, as for `isCased`. -/
def isCaseIgnorable (c : Char) : Bool :=
  c == '.' || c == ':' || c == '^' || c == Char.ofNat 0x27 || c == Char.ofNat 0x60

/-- Whether the nearest letter or sign that counts has a case. -/
def meetsCased (s : List Char) : Bool :=
  match s.dropWhile isCaseIgnorable with
  | [] => false
  | c :: _ => isCased c

/-- The small letters for one character, wherever it stands. -/
def lowerChar (c : Char) : List Char :=
  if c.toNat < 0x80 then [c.toLower]
  else if c.toNat = 0x130 then ['i', Char.ofNat 0x307]
  else match caseRuns.findSome? (·.lower? c.toNat) with
    | some n => [Char.ofNat n]
    | none => [c]

/-- Lower case of the text `s`, where `before` holds what precedes it, last character first. -/
def lowerAfter (before : List Char) : List Char → List Char
  | [] => []
  | c :: s =>
      (if c = 'Σ' then
        [if meetsCased before && !meetsCased s then 'ς' else 'σ']
      else lowerChar c) ++ lowerAfter (c :: before) s

def lowerChars (s : List Char) : List Char := lowerAfter [] s

theorem lowerChar_ascii {c : Char} (h : c.toNat < 0x80) : lowerChar c = [c.toLower] := by
  simp [lowerChar, h]

end FleetBoot.Text
