import FleetBoot.Proofs.Json.Object
import FleetBoot.Proofs.Json.Scalar

/-! The text of a value is read back as the value, unless it has a floating point number or nests
deeper than the reader follows. -/
namespace FleetBoot.Json
variable {d fuel : Nat} {v : Json} {items : List Json} {members : List (String × Json)}
  {r s : List Char}

/-- No number is a floating point number, integers fit in 64 bits, with or without sign, objects are
in order, and there are at most so many levels of arrays and objects. -/
inductive Plain : Nat → Json → Prop
  | null {d : Nat} : Plain d .null
  | bool {d : Nat} (b : Bool) : Plain d (.bool b)
  | integer {d : Nat} {n : Int} (h : -2 ^ 63 ≤ n) (h' : n < 2 ^ 64) :
      Plain d (.number (.integer n))
  | string {d : Nat} (s : String) : Plain d (.string s)
  | array {d : Nat} {items : List Json} (h : ∀ v ∈ items, Plain d v) : Plain (d + 1) (.array items)
  | object {d : Nat} {members : List (String × Json)} (hordered : Ordered members)
      (h : ∀ m ∈ members, Plain d m.2) : Plain (d + 1) (.object members)

/-- The text starts, but not with a blank or a bracket that closes. -/
def Opens (s : List Char) : Prop := ∃ c t, s = c :: t ∧ c ∉ [' ', '\n', '\t', '\r', ']', '}']

theorem Opens.skipSpace (h : Opens s) (r : List Char) : skipSpace (s ++ r) = s ++ r := by
  obtain ⟨c, t, rfl, hc⟩ := h
  simp only [List.mem_cons, List.not_mem_nil, not_or] at hc
  simp [Json.skipSpace, hc]

theorem Delimits.skipSpace (h : Delimits r) : skipSpace r = r := by
  cases r with
  | nil => rfl
  | cons c r => rcases h c rfl with rfl | rfl | rfl <;> rfl

theorem opens_intText (n : Int) : Opens (Double.Decimal.intText n) := by
  obtain ⟨c, t, htext, hc⟩ := Numeral.exists_intText_cons n
  refine ⟨c, t, htext, fun hmem => ?_⟩
  simp only [List.mem_cons, List.not_mem_nil, or_false] at hmem
  rcases hmem with rfl | rfl | rfl | rfl | rfl | rfl <;> exact absurd hc (by decide)

theorem Opens.length_pos (h : Opens s) : 0 < s.length := by
  obtain ⟨c, t, rfl, -⟩ := h
  exact Nat.succ_pos _

/-- The text of the value is read back by as much fuel as two for each character, whatever delimiter
follows. -/
structure Reads (d : Nat) (v : Json) : Prop where
  opens : Opens v.chars
  back : ∀ {fuel : Nat} {r : List Char}, 2 * v.chars.length ≤ fuel → Delimits r →
    value? fuel d (v.chars ++ r) = some (v, r)

/-- It is enough to read the text with fuel for its first character and what follows. -/
theorem Reads.of_opens (hopens : Opens v.chars)
    (h : ∀ fuel r, 2 * v.chars.length ≤ fuel + 2 → Delimits r →
      value? (fuel + 2) d (v.chars ++ r) = some (v, r)) : Reads d v where
  opens := hopens
  back := by
    intro fuel r hfuel hr
    have hpos := hopens.length_pos
    obtain ⟨fuel, rfl⟩ : ∃ f, fuel = f + 2 := ⟨fuel - 2, by omega⟩
    exact h fuel r hfuel hr

theorem reads_integer {n : Int} (h : -2 ^ 63 ≤ n) (h' : n < 2 ^ 64) :
    Reads d (.number (.integer n)) := by
  apply Reads.of_opens (v := .number (.integer n)) (opens_intText n)
  intro fuel r _ hr
  have hread := Numeral.read_intText n hr
  change value? (fuel + 2) d (Double.Decimal.intText n ++ r) = _
  obtain ⟨c, t, htext, hc⟩ := Numeral.exists_intText_cons n
  have hnumber : c ≠ '"' ∧ c ≠ '[' ∧ c ≠ '{' ∧ c ≠ 'n' ∧ c ≠ 't' ∧ c ≠ 'f' := by
    refine ⟨?_, ?_, ?_, ?_, ?_, ?_⟩ <;> rintro rfl <;> exact absurd hc (by decide)
  rw [htext, List.cons_append] at hread ⊢
  rw [value?.eq_def]
  simp [hnumber, hread, Numeral.number?_intText h h']

theorem reads_string (s : String) : Reads d (.string s) := by
  apply Reads.of_opens ⟨'"', _, rfl, by decide⟩
  intro fuel r hfuel _
  have hchars : chars (.string s) = '"' :: (s.toList.flatMap escape ++ ['"']) := rfl
  have hlength := length_le_flatMap_escape s.toList
  rw [hchars, List.length_cons, List.length_append, List.length_singleton] at hfuel
  have hread : string? (fuel + 1) (s.toList.flatMap escape ++ '"' :: r) = some (s, r) :=
    string?_escape (by omega) r
  rw [hchars, List.cons_append, List.append_assoc, value?.eq_def]
  simp [hread]

section Items

/-- The items after the first, each behind its comma. -/
def laterItems (items : List Json) : List Char := items.flatMap fun v => ',' :: v.chars

theorem itemChars_cons (v : Json) (items : List Json) :
    itemChars (v :: items) = v.chars ++ laterItems items := by
  induction items generalizing v with
  | nil => simp [itemChars, laterItems]
  | cons w items ih => simp [itemChars, laterItems, ih]

theorem delimits_laterItems (items : List Json) (r : List Char) :
    Delimits (laterItems items ++ ']' :: r) := by
  cases items <;> simp [laterItems, Delimits]

theorem items?_laterItems (h : ∀ v ∈ items, Reads d v)
    (hfuel : 2 * (laterItems items).length < fuel) (r : List Char) :
    items? fuel d false (laterItems items ++ ']' :: r) = some (items, r) := by
  induction items generalizing fuel with
  | nil =>
    obtain ⟨fuel, rfl⟩ : ∃ f, fuel = f + 1 := ⟨fuel - 1, by omega⟩
    rfl
  | cons v items ih =>
    obtain ⟨hv, hitems⟩ := List.forall_mem_cons.mp h
    have hchars : laterItems (v :: items) = ',' :: (v.chars ++ laterItems items) := by
      simp [laterItems]
    have hdelimits := delimits_laterItems items r
    rw [hchars, List.length_cons, List.length_append] at hfuel
    obtain ⟨fuel, rfl⟩ : ∃ f, fuel = f + 1 := ⟨fuel - 1, by omega⟩
    have hvalue : value? fuel d (v.chars ++ (laterItems items ++ ']' :: r)) =
        some (v, laterItems items ++ ']' :: r) := hv.back (by omega) hdelimits
    have hrest : items? fuel d false (laterItems items ++ ']' :: r) = some (items, r) :=
      ih hitems (by omega)
    rw [hchars, List.cons_append, List.append_assoc, items?]
    simp [hv.opens.skipSpace, hvalue, hdelimits.skipSpace, hrest]

theorem reads_array (h : ∀ v ∈ items, Reads d v) : Reads (d + 1) (.array items) := by
  apply Reads.of_opens ⟨'[', _, rfl, by decide⟩
  intro fuel r hfuel _
  have hchars : chars (.array items) = '[' :: (itemChars items ++ [']']) := rfl
  rw [hchars, List.length_cons, List.length_append, List.length_singleton] at hfuel
  have hread : items? (fuel + 1) d true (skipSpace (itemChars items ++ ']' :: r)) =
      some (items, r) := by
    cases items with
    | nil => rfl
    | cons v items =>
      obtain ⟨hv, hitems⟩ := List.forall_mem_cons.mp h
      obtain ⟨c, t, hc, hopen⟩ := id hv.opens
      have hdelimits := delimits_laterItems items r
      have hpos := hv.opens.length_pos
      rw [itemChars_cons, List.length_append] at hfuel
      have hvalue : value? fuel d (v.chars ++ (laterItems items ++ ']' :: r)) =
          some (v, laterItems items ++ ']' :: r) := hv.back (by omega) hdelimits
      have hrest : items? fuel d false (laterItems items ++ ']' :: r) = some (items, r) :=
        items?_laterItems hitems (by omega) r
      rw [itemChars_cons, List.append_assoc, hv.opens.skipSpace]
      rw [hc, List.cons_append] at hvalue ⊢
      simp only [List.mem_cons, List.not_mem_nil, not_or] at hopen
      rw [items?]
      simp [hopen, hvalue, hdelimits.skipSpace, hrest]
  rw [hchars, List.cons_append, List.append_assoc, value?]
  simp [hread]

end Items

section Members

/-- The members after the first, each behind its comma. -/
def laterMembers (members : List (String × Json)) : List Char :=
  members.flatMap fun m => ',' :: (quote m.1 ++ ':' :: m.2.chars)

theorem memberChars_cons (m : String × Json) (members : List (String × Json)) :
    memberChars (m :: members) =
      (quote m.1 ++ ':' :: m.2.chars) ++ laterMembers members := by
  induction members generalizing m with
  | nil => simp [memberChars, laterMembers]
  | cons n members ih => simp [memberChars, laterMembers, ih]

theorem delimits_laterMembers (members : List (String × Json)) (r : List Char) :
    Delimits (laterMembers members ++ '}' :: r) := by
  cases members <;> simp [laterMembers, Delimits]

/-- The two parts of a member are read back one after the other. -/
theorem member_back {m : String × Json} (fuel : Nat) (hm : Reads d m.2)
    (hfuel : 2 * (quote m.1 ++ ':' :: m.2.chars).length ≤ fuel) (hr : Delimits r) :
    string? fuel (m.1.toList.flatMap escape ++ '"' :: ':' :: (m.2.chars ++ r)) =
        some (m.1, ':' :: (m.2.chars ++ r)) ∧
      value? fuel d (m.2.chars ++ r) = some (m.2, r) := by
  have hlength := length_le_flatMap_escape m.1.toList
  simp only [quote, List.length_append, List.length_cons] at hfuel
  exact ⟨string?_escape (by omega) _, hm.back (by omega) hr⟩

theorem members?_laterMembers (h : ∀ m ∈ members, Reads d m.2)
    (hfuel : 2 * (laterMembers members).length < fuel) (r : List Char) :
    members? fuel d false (laterMembers members ++ '}' :: r) = some (members, r) := by
  induction members generalizing fuel with
  | nil =>
    obtain ⟨fuel, rfl⟩ : ∃ f, fuel = f + 1 := ⟨fuel - 1, by omega⟩
    rfl
  | cons m members ih =>
    obtain ⟨hm, hmembers⟩ := List.forall_mem_cons.mp h
    have hchars : laterMembers (m :: members) =
        ',' :: ((quote m.1 ++ ':' :: m.2.chars) ++ laterMembers members) := by
      simp [laterMembers]
    have hdelimits := delimits_laterMembers members r
    rw [hchars, List.length_cons, List.length_append] at hfuel
    obtain ⟨fuel, rfl⟩ : ∃ f, fuel = f + 1 := ⟨fuel - 1, by omega⟩
    obtain ⟨hname, hvalue⟩ := member_back fuel hm (by omega) hdelimits
    have hrest : members? fuel d false (laterMembers members ++ '}' :: r) = some (members, r) :=
      ih hmembers (by omega)
    rw [hchars, List.cons_append, List.append_assoc, members?]
    simp [quote, skipSpace, Text.dropPrefix?, hname, hm.opens.skipSpace, hvalue, hdelimits.skipSpace,
      hrest]

theorem reads_object (hordered : Ordered members) (h : ∀ m ∈ members, Reads d m.2) :
    Reads (d + 1) (.object members) := by
  apply Reads.of_opens ⟨'{', _, rfl, by decide⟩
  intro fuel r hfuel _
  have hchars : chars (.object members) = '{' :: (memberChars members ++ ['}']) := rfl
  rw [hchars, List.length_cons, List.length_append, List.length_singleton] at hfuel
  have hread : members? (fuel + 1) d true (skipSpace (memberChars members ++ '}' :: r)) =
      some (members, r) := by
    cases members with
    | nil => rfl
    | cons m members =>
      obtain ⟨hm, hmembers⟩ := List.forall_mem_cons.mp h
      have hdelimits := delimits_laterMembers members r
      rw [memberChars_cons, List.length_append] at hfuel
      obtain ⟨hname, hvalue⟩ := member_back fuel hm (by omega) hdelimits
      have hrest : members? fuel d false (laterMembers members ++ '}' :: r) = some (members, r) :=
        members?_laterMembers hmembers (by omega) r
      rw [memberChars_cons]
      simp [quote, skipSpace, members?, Text.dropPrefix?, hname, hm.opens.skipSpace, hvalue,
        hdelimits.skipSpace, hrest]
  have hsame : ofMembers members = .object members :=
    congrArg Json.object (gather_of_ordered hordered)
  rw [hchars, List.cons_append, List.append_assoc, value?]
  simp [hread, hsame]

end Members

theorem Plain.reads (h : Plain d v) : Reads d v := by
  induction h with
  | null =>
    apply Reads.of_opens ⟨'n', _, rfl, by decide⟩
    intro fuel r _ _
    simp [chars, value?.eq_def, literal?]
  | bool b =>
    cases b with
    | true =>
      apply Reads.of_opens ⟨'t', _, rfl, by decide⟩
      intro fuel r _ _
      simp [chars, value?.eq_def, literal?]
    | false =>
      apply Reads.of_opens ⟨'f', _, rfl, by decide⟩
      intro fuel r _ _
      simp [chars, value?.eq_def, literal?]
  | integer h h' => exact reads_integer h h'
  | string s => exact reads_string s
  | array _ ih => exact reads_array ih
  | object hordered _ ih => exact reads_object hordered ih

/-- The text of a plain value is read back as the value. -/
theorem Plain.parse?_text (h : Plain d v) : parse? d v.text = some v := by
  have hread := h.reads
  have hstart : skipSpace v.chars = v.chars := by simpa using hread.opens.skipSpace []
  have hvalue : value? (2 * v.chars.length + 2) d v.chars = some (v, []) := by
    simpa using hread.back (r := []) (by omega) nofun
  rw [parse?, text, String.toList_ofList, hstart, hvalue]
  rfl

end FleetBoot.Json
