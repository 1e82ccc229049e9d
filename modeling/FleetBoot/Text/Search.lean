/-! Looking for one text inside another: the first place, all places, cutting and replacing. -/
namespace FleetBoot.Text

/-- What follows `p`, if the text starts with `p`. -/
def dropPrefix? : List Char → List Char → Option (List Char)
  | [], s => some s
  | _ :: _, [] => none
  | a :: p, b :: s => if a = b then dropPrefix? p s else none

theorem dropPrefix?_eq_some_iff {p s r : List Char} : dropPrefix? p s = some r ↔ s = p ++ r := by
  induction p generalizing s with
  | nil => simp [dropPrefix?]
  | cons a p ih =>
    cases s with
    | nil => simp [dropPrefix?]
    | cons b s =>
      by_cases h : a = b
      · simp [dropPrefix?, h, ih]
      · simp [dropPrefix?, h, Ne.symm h]

/-- Cuts the text at the first place where `p` occurs: what stands before it and after it. -/
def cutAt? (p : List Char) : List Char → Option (List Char × List Char)
  | [] => (dropPrefix? p []).map fun r => ([], r)
  | c :: s =>
      match dropPrefix? p (c :: s) with
      | some r => some ([], r)
      | none => (cutAt? p s).map fun (before, after) => (c :: before, after)

theorem eq_of_cutAt? {p s a b : List Char} (h : cutAt? p s = some (a, b)) : s = a ++ p ++ b := by
  induction s generalizing a b with
  | nil =>
    obtain ⟨r, hr, he⟩ := Option.map_eq_some_iff.1 h
    cases he
    simpa using dropPrefix?_eq_some_iff.1 hr
  | cons c s ih =>
    simp only [cutAt?] at h
    split at h
    · next r hr =>
      cases h
      simpa using dropPrefix?_eq_some_iff.1 hr
    · obtain ⟨⟨x, y⟩, hr, he⟩ := Option.map_eq_some_iff.1 h
      cases he
      simpa using ih hr

theorem length_of_cutAt? {p s a b : List Char} (h : cutAt? p s = some (a, b)) :
    s.length = a.length + p.length + b.length := by
  simp [eq_of_cutAt? h, Nat.add_assoc]

/-- Cuts the text at the first `c`. -/
def cutAtChar? (c : Char) (s : List Char) : Option (List Char × List Char) := cutAt? [c] s

/-- The text with every `c` left out. -/
def eraseChar (c : Char) (s : List Char) : List Char := s.filter (· ≠ c)

/-- The text with `a b c` left out wherever these three stand in a row, read from the left. -/
def eraseTriple (a b c : Char) : List Char → List Char
  | x :: y :: z :: s =>
      if x = a ∧ y = b ∧ z = c then eraseTriple a b c s else x :: eraseTriple a b c (y :: z :: s)
  | s => s

/-- The text with the first `p` turned into `q`. -/
def replaceFirst (p q s : List Char) : List Char :=
  match cutAt? p s with
  | some (before, after) => before ++ q ++ after
  | none => s

/-- The pieces between the separators `c`: one more than there are separators. -/
def splitChar (c : Char) : List Char → List (List Char)
  | [] => [[]]
  | x :: s =>
      if x = c then [] :: splitChar c s
      else match splitChar c s with
        | [] => [[x]]
        | piece :: rest => (x :: piece) :: rest

end FleetBoot.Text
