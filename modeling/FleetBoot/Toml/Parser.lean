import FleetBoot.Toml.Scalar

/-! Reading TOML documents. -/
namespace FleetBoot.Toml

def literal? (w : List Char) (v : Node) (s : List Char) : Option (Node × List Char) :=
  (Text.dropPrefix? w s).map fun r => (v, r)

mutual

/-- One value, with at most `depth` levels of arrays and braces. -/
def value? : Nat → Nat → List Char → Option (Node × List Char)
  | 0, _, _ => none
  | _ + 1, _, [] => none
  | fuel + 1, depth, c :: s =>
      if c = '"' ∨ c = single then
        (string? (c :: s)).map fun (x, r) => (.text (String.ofList x), r)
      else if c = '[' then
        match depth with
        | 0 => none
        | depth + 1 =>
            (items? fuel depth (skipLines (s.length + 1) s)).map fun (xs, r) => (.array xs, r)
      else if c = '{' then
        match depth with
        | 0 => none
        | depth + 1 =>
            match skipBlanks s with
            | '}' :: r => some (.inline false [], r)
            | r => (braced? fuel depth [] r).map fun (ms, r) => (.inline false ms, r)
      else if c = '+' ∨ c = '-' ∨ Text.isDigit c then number? (c :: s)
      else if c = 't' then literal? ['t', 'r', 'u', 'e'] (.bool true) (c :: s)
      else if c = 'f' then literal? ['f', 'a', 'l', 's', 'e'] (.bool false) (c :: s)
      else special? (c :: s)

/-- The items of an array up to the closing bracket. -/
def items? : Nat → Nat → List Char → Option (List Node × List Char)
  | 0, _, _ => none
  | fuel + 1, depth, s =>
      match s with
      | ']' :: r => some ([], r)
      | s => do
          let (v, r) ← value? fuel depth s
          match skipLines (r.length + 1) r with
          | ',' :: r => do
              let (vs, r) ← items? fuel depth (skipLines (r.length + 1) r)
              return (v :: vs, r)
          | ']' :: r => return ([v], r)
          | _ => none

/-- The members up to the closing brace, added to those before. -/
def braced? : Nat → Nat → Members → List Char → Option (Members × List Char)
  | 0, _, _, _ => none
  | fuel + 1, depth, ms, s => do
      let (path, key, r) ← key? s
      let r ← dropChar? '=' r
      let (v, r) ← value? fuel depth (skipBlanks r)
      let ms ← assignInline? path key v ms
      match skipBlanks r with
      | ',' :: r => braced? fuel depth ms r
      | '}' :: r => return (ms, r)
      | _ => none

end

/-- The document so far and the path of the table whose header came last. -/
structure State where
  root : Members
  current : List String

def State.assign? (st : State) (path : List String) (key : String) (v : Node) : Option State := do
  let root ← within? false st.current (Toml.assign? path key v) .header st.root
  return { st with root }

def State.enter? (st : State) (path : List String) (key : String)
    (add : String → Members → Option Members) : Option State := do
  let root ← within? false path (fun _ ms => add key ms) .header st.root
  return ⟨root, path ++ [key]⟩

/-- `key = value` up to the end of its line. -/
def keyValue? (st : State) (s : List Char) : Option (State × List Char) := do
  let (path, key, r) ← key? s
  let r ← dropChar? '=' r
  let (v, r) ← value? (2 * s.length + 2) nesting (skipBlanks r)
  let r ← endOfLine? r
  return (← st.assign? path key v, r)

/-- A header up to the end of its line. -/
def header? (st : State) (s : List Char) : Option (State × List Char) :=
  match s with
  | '[' :: '[' :: r => do
      let (path, key, r) ← key? r
      let r ← Text.dropPrefix? [']', ']'] r
      let r ← endOfLine? r
      return (← st.enter? path key openRow?, r)
  | s => do
      let (path, key, r) ← key? (s.drop 1)
      let r ← dropChar? ']' r
      let r ← endOfLine? r
      return (← st.enter? path key openTable?, r)

/-- One line, or a statement of several lines. -/
def statement? (st : State) (s : List Char) : Option (State × List Char) :=
  match s with
  | '#' :: _ => (endOfLine? s).map fun r => (st, r)
  | '\n' :: _ | '\r' :: _ => (newline? s).map fun r => (st, r)
  | '[' :: _ => header? st s
  | s => keyValue? st s

def statements? : Nat → State → List Char → Option Members
  | 0, _, _ => none
  | fuel + 1, st, s =>
      match skipBlanks s with
      | [] => some st.root
      | s => do
          let (st, r) ← statement? st s
          statements? fuel st r

/-- The tree of a document. A byte order mark may come first. -/
def parse? (s : String) : Option Members :=
  let s := match s.toList with
    | c :: r => if c.toNat = 0xFEFF then r else c :: r
    | [] => []
  statements? (s.length + 1) ⟨[], []⟩ s

end FleetBoot.Toml
