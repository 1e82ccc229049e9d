import FleetBoot.Json.Parser

/-! Reading the body of a request: a JSON record of texts. The text is read from the left, and the
first fault counts. What no field takes is only checked to be JSON. -/
namespace FleetBoot

/-- A field of a form. An optional one may be null. -/
structure FormField where
  name : String
  optional : Bool

/-- Why a body is refused: it is no JSON, or not the record. -/
inductive FormFault where
  | malformed
  | mistyped
  deriving DecidableEq

/-- The fields that a body gives. -/
abbrev FormValues := List (String × Option String)

def FormValues.value? (values : FormValues) (name : String) : Option String :=
  (values.lookup name).join

def FormValues.value (values : FormValues) (name : String) : String :=
  (values.value? name).getD ""

namespace Form

/-- What follows a string whose characters are not looked at. -/
def skipString : List Char → Option (List Char)
  | [] => none
  | '"' :: s => some s
  | ['\\'] => none
  | '\\' :: 'u' :: a :: b :: c :: d :: s =>
      if [a, b, c, d].all Text.isHexDigit then skipString s else none
  | '\\' :: c :: s => if "\"\\/bfnrt".toList.contains c then skipString s else none
  | c :: s => if c.toNat < 0x20 then none else skipString s

mutual

/-- What follows a value of any depth. -/
def skipValue : Nat → List Char → Option (List Char)
  | 0, _ => none
  | _ + 1, [] => none
  | fuel + 1, c :: s =>
      if c = '"' then skipString s
      else if c = '[' then skipItems fuel true (Json.skipSpace s)
      else if c = '{' then skipMembers fuel true (Json.skipSpace s)
      else if c = 'n' then Text.dropPrefix? ['u', 'l', 'l'] s
      else if c = 't' then Text.dropPrefix? ['r', 'u', 'e'] s
      else if c = 'f' then Text.dropPrefix? ['a', 'l', 's', 'e'] s
      else (Numeral.read (c :: s)).map (·.2)

def skipItems : Nat → Bool → List Char → Option (List Char)
  | 0, _, _ => none
  | _ + 1, _, [] => none
  | fuel + 1, first, c :: r =>
      if c = ']' then some r
      else do
        let s ← if first then some (c :: r) else if c = ',' then some (Json.skipSpace r) else none
        skipItems fuel false (Json.skipSpace (← skipValue fuel s))

def skipMembers : Nat → Bool → List Char → Option (List Char)
  | 0, _, _ => none
  | _ + 1, _, [] => none
  | fuel + 1, first, c :: r =>
      if c = '}' then some r
      else do
        let s ← if first then some (c :: r) else if c = ',' then some (Json.skipSpace r) else none
        let r ← skipString (← Text.dropPrefix? ['"'] s)
        let r ← Text.dropPrefix? [':'] (Json.skipSpace r)
        skipMembers fuel false (Json.skipSpace (← skipValue fuel (Json.skipSpace r)))

end

def orMalformed {α : Type} : Option α → Except FormFault α
  | some a => .ok a
  | none => .error .malformed

/-- The value of a field. A value of another type is a fault of its own, if it is JSON so far. -/
def fieldValue (fuel : Nat) (field : FormField) :
    List Char → Except FormFault (Option String × List Char)
  | '"' :: s => do
      let (x, r) ← orMalformed (Json.string? fuel s)
      return (some x, r)
  | '[' :: _ | '{' :: _ => .error .mistyped
  | s => do
      match ← orMalformed (Json.value? fuel 0 s) with
      | (.null, r) => if field.optional then return (none, r) else .error .mistyped
      | _ => .error .mistyped

/-- The members up to the closing brace, after those that are `known`. No field stands twice. -/
def readMembers (fields : List FormField) :
    Nat → Bool → FormValues → List Char → Except FormFault FormValues
  | 0, _, _, _ => .error .malformed
  | _ + 1, _, _, [] => .error .malformed
  | fuel + 1, first, known, c :: r =>
      if c = '}' then .ok known
      else do
        let s ← if first then .ok (c :: r)
          else if c = ',' then .ok (Json.skipSpace r) else .error .malformed
        let s ← orMalformed (Text.dropPrefix? ['"'] s)
        let (name, r) ← orMalformed (Json.string? fuel s)
        let field := fields.find? (·.name = name)
        if field.isSome && (known.lookup name).isSome then .error .mistyped
        else
          let r ← orMalformed (Text.dropPrefix? [':'] (Json.skipSpace r))
          match field with
          | none =>
              let r ← orMalformed (skipValue fuel (Json.skipSpace r))
              readMembers fields fuel false known (Json.skipSpace r)
          | some field =>
              let (x, r) ← fieldValue fuel field (Json.skipSpace r)
              readMembers fields fuel false ((name, x) :: known) (Json.skipSpace r)

/-- The items up to the closing bracket, one for each field as far as they go. -/
def readItems (fuel : Nat) : List FormField → Bool → List Char → Except FormFault FormValues
  | _, _, [] => .error .malformed
  | [], _, c :: _ => if c = ']' then .ok [] else .error .malformed
  | field :: fields, first, c :: r =>
      if c = ']' then .ok []
      else do
        let s ← if first then .ok (c :: r)
          else if c = ',' then .ok (Json.skipSpace r) else .error .malformed
        let (x, r) ← fieldValue fuel field s
        return (field.name, x) :: (← readItems fuel fields false (Json.skipSpace r))

/-- Reads a form. What follows the record is not looked at. -/
def read (fields : List FormField) (body : String) : Except FormFault FormValues :=
  let s := Json.skipSpace body.toList
  let fuel := 2 * s.length + 2
  match s with
  | '[' :: s => readItems fuel fields true (Json.skipSpace s)
  | '{' :: s => readMembers fields fuel true [] (Json.skipSpace s)
  | s => do
      let _ ← orMalformed (Json.value? fuel 0 s)
      .error .mistyped

end Form
end FleetBoot
