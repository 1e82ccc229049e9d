/-! Media types: what a request says its body is. -/
namespace FleetBoot

/-- The parts of a media type, in small letters and without parameters. -/
structure MediaType where
  type : String
  subtype : String
  suffix : Option String
  deriving DecidableEq

namespace MediaType

/-- The characters of names: ASCII letters, digits and some signs. -/
def isNameChar (c : Char) : Bool := c.isAlphanum || "!#$%&'*+-.^_`|~".toList.contains c

/-- The characters between quotes. The first may be a quote. -/
def isQuotedChar (c : Char) : Bool := 0x20 ≤ c.toNat && c.toNat < 0x7F

/-- What follows a name, and whether the name holds anything. -/
def skipName : List Char → Bool × List Char
  | [] => (false, [])
  | c :: s => if isNameChar c then (true, (skipName s).2) else (false, c :: s)

theorem skipName_length (s : List Char) : (skipName s).2.length ≤ s.length := by
  induction s with
  | nil => simp [skipName]
  | cons c s ih =>
    unfold skipName
    split
    · simp only [List.length_cons]; omega
    · simp

/-- What follows the closing quote and the spaces after it. -/
def skipQuoted : List Char → Option (List Char)
  | [] => none
  | c :: s =>
      if c = '"' then some (s.dropWhile (· = ' '))
      else if isQuotedChar c then skipQuoted s
      else none

theorem dropWhile_length (p : Char → Bool) (s : List Char) :
    (s.dropWhile p).length ≤ s.length := (List.dropWhile_sublist p).length_le

theorem skipQuoted_length {s r : List Char} (h : skipQuoted s = some r) :
    r.length ≤ s.length := by
  induction s with
  | nil => simp [skipQuoted] at h
  | cons c s ih =>
    unfold skipQuoted at h
    split at h
    · cases h
      have := dropWhile_length (· = ' ') s
      simp only [List.length_cons]; omega
    · split at h
      · have := ih h
        simp only [List.length_cons]; omega
      · simp at h

/-- What follows a parameter's value. A value in quotes holds at least one character; the last
value may be empty if it is not in quotes. -/
def skipValue : List Char → Option (List Char)
  | '"' :: c :: s => if isQuotedChar c then skipQuoted s else none
  | s =>
      match skipName s with
      | (true, r) => some r
      | (false, []) => some []
      | (false, _) => none

theorem skipValue_length {s r : List Char} (h : skipValue s = some r) : r.length ≤ s.length := by
  unfold skipValue at h
  split at h
  · split at h
    · have := skipQuoted_length h
      simp only [List.length_cons]; omega
    · simp at h
  · split at h
    · next heq =>
      cases h
      have := skipName_length s
      rwa [heq] at this
    · cases h; simp
    · simp at h

/-- Whether a text is a row of parameters with `;` between them. -/
def isParameters (s : List Char) : Bool :=
  match s with
  | [] => true
  | c :: s =>
      if c = ' ' then isParameters s
      else match _hn : skipName (c :: s) with
        | (true, '=' :: v) =>
            match _hv : skipValue v with
            | some [] => true
            | some (';' :: r) => isParameters r
            | _ => false
        | _ => false
termination_by s.length
decreasing_by
  · simp
  · have h1 := skipName_length (c :: s)
    have h2 := skipValue_length _hv
    simp only [_hn, List.length_cons] at h1 h2 ⊢
    omega

/-- A name cut at its last plus sign, if there is one after the first character. -/
def cutSuffix (s : List Char) : List Char × Option (List Char) :=
  let after := s.reverse.takeWhile (· ≠ '+')
  let before := s.take (s.length - after.length - 1)
  if before.isEmpty then (s, none) else (before, some after.reverse)

/-- Reads a media type. Names are put in small letters. -/
def parse? (s : String) : Option MediaType :=
  let s := s.toList.map Char.toLower
  let type := s.takeWhile isNameChar
  match s.dropWhile isNameChar with
  | '/' :: s =>
      let (subtype, suffix) := cutSuffix (s.takeWhile isNameChar)
      let read : MediaType := ⟨String.ofList type, String.ofList subtype, suffix.map String.ofList⟩
      match s.dropWhile isNameChar with
      | [] => if type.isEmpty then none else some read
      | ';' :: r =>
          if type.isEmpty ∨ subtype.isEmpty ∨ isParameters r = false then none else some read
      | _ => none
  | _ => none

/-- Whether a body of this type is JSON. -/
def isJson (m : MediaType) : Bool :=
  m.type == "application" && (m.subtype == "json" || m.suffix == some "json")

end MediaType
end FleetBoot
