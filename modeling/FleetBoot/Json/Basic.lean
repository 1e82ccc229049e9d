import FleetBoot.Json.Double

/-! JSON values. Objects list their members by strictly rising name. -/
namespace FleetBoot

inductive Number where
  | integer (value : Int)
  | real (value : Double)
  deriving DecidableEq

inductive Json where
  | null
  | bool (value : Bool)
  | number (value : Number)
  | string (value : String)
  | array (items : List Json)
  | object (members : List (String × Json))

namespace Json

/-- Puts a member in its place by name; an equal name gives way. -/
def putMember (name : String) (value : Json) : List (String × Json) → List (String × Json)
  | [] => [(name, value)]
  | (n, v) :: rest =>
      if name < n then (name, value) :: (n, v) :: rest
      else if name = n then (name, value) :: rest
      else (n, v) :: putMember name value rest

/-- An object of members in any order, of which the last of a name counts. -/
def ofMembers (members : List (String × Json)) : Json :=
  .object (members.foldl (fun acc (n, v) => putMember n v acc) [])

def int (n : Int) : Json := .number (.integer n)
def nat (n : Nat) : Json := .int n
def strings (xs : List String) : Json := .array (xs.map .string)

def member? (name : String) : Json → Option Json
  | .object members => members.lookup name
  | _ => none

end Json
end FleetBoot
