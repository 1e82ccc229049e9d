import FleetBoot.Json.Parser
import FleetBoot.Json.Printer
import FleetBoot.Proofs.Address.Text

/-! Numbers and strings in JSON text are read back, whatever delimiter follows. An integer keeps its
value if it fits in 64 bits, with or without sign, and a string has each of its characters written
so that no quote ends it early. -/
namespace FleetBoot

/-- No value goes on with what follows: that is nothing, a comma, or a bracket that closes. -/
def Json.Delimits (r : List Char) : Prop := ∀ c ∈ r.head?, c = ',' ∨ c = ']' ∨ c = '}'

namespace Numeral
variable {n : Int} {r : List Char}

theorem digits_eq_spanDigits (s : List Char) : digits s = Address.spanDigits Text.digit? s := by
  induction s with
  | nil => rfl
  | cons c s ih =>
    cases h : Text.digit? c <;> simp [digits, Address.spanDigits, h, ih]

theorem digits_decimal (n : Nat) (h : Json.Delimits r) :
    digits (Text.decimal n ++ r) = (Text.places 10 n, r) := by
  rw [digits_eq_spanDigits]
  apply Address.spanDigits_decimal
  intro c hc
  rcases h c hc with rfl | rfl | rfl <;> rfl

theorem readFraction_of_delimits (h : Json.Delimits r) : readFraction r = some (none, r) := by
  cases r with
  | nil => rfl
  | cons c r => rcases h c rfl with rfl | rfl | rfl <;> rfl

theorem readExponent_of_delimits (h : Json.Delimits r) : readExponent r = some (none, r) := by
  cases r with
  | nil => rfl
  | cons c r => rcases h c rfl with rfl | rfl | rfl <;> rfl

/-- A decimal starts with a digit. -/
theorem exists_decimal_cons (n : Nat) : ∃ c s, Text.decimal n = c :: s ∧ Text.isDigit c = true := by
  have hplaces : Text.decimal n = (Text.places 10 n).map Text.digitChar :=
    Text.numeral_eq_places (by decide) n
  cases hs : Text.decimal n with
  | nil =>
    rw [hs, eq_comm, List.map_eq_nil_iff] at hplaces
    exact absurd hplaces (Text.places_ne_nil 10 n)
  | cons c s => exact ⟨c, s, rfl, Text.isDigit_of_mem_decimal (hs ▸ List.mem_cons_self)⟩

/-- An integer starts with a minus sign or a digit. -/
theorem exists_intText_cons (n : Int) :
    ∃ c s, Double.Decimal.intText n = c :: s ∧ (c = '-' ∨ Text.isDigit c = true) := by
  unfold Double.Decimal.intText
  split
  · exact ⟨'-', _, rfl, .inl rfl⟩
  · obtain ⟨c, s, hdecimal, hc⟩ := exists_decimal_cons n.natAbs
    exact ⟨c, s, hdecimal, .inr hc⟩

theorem read_intText (n : Int) (h : Json.Delimits r) :
    read (Double.Decimal.intText n ++ r) =
      some (⟨decide (n < 0), Text.places 10 n.natAbs, none, none⟩, r) := by
  unfold read Double.Decimal.intText
  split
  next negative body hsign =>
  have hparts : negative = decide (n < 0) ∧ body = Text.decimal n.natAbs ++ r := by
    by_cases hn : n < 0
    · rw [if_pos hn] at hsign
      cases hsign
      exact ⟨(decide_eq_true hn).symm, rfl⟩
    · obtain ⟨c, s, hdecimal, hc⟩ := exists_decimal_cons n.natAbs
      rw [if_neg hn, hdecimal] at hsign
      split at hsign
      · next hcons =>
        rw [(List.cons.inj hcons).1] at hc
        exact absurd hc (by decide)
      · cases hsign
        exact ⟨(decide_eq_false hn).symm, by rw [hdecimal]⟩
  obtain ⟨rfl, rfl⟩ := hparts
  rw [digits_decimal _ h]
  split
  · next hnil => exact absurd (Prod.mk.inj hnil).1 (Text.places_ne_nil 10 _)
  · next hzero => exact absurd (Text.eq_nil_of_places (Prod.mk.inj hzero).1) (List.cons_ne_nil _ _)
  · next heq =>
    cases heq
    simp [readFraction_of_delimits h, readExponent_of_delimits h]

/-- An integer that fits in 64 bits, with or without sign, is the value of its numeral. -/
theorem number?_intText (h : -2 ^ 63 ≤ n) (h' : n < 2 ^ 64) :
    number? ⟨decide (n < 0), Text.places 10 n.natAbs, none, none⟩ = some (.integer n) := by
  have hlimit : limit = 2 ^ 64 - 1 := rfl
  have hpow : Nat.pow 2 63 = 2 ^ 63 := rfl
  unfold number?
  dsimp only
  rw [Text.valueOf_places, hlimit, hpow]
  by_cases hn : n < 0
  · rw [if_pos ⟨rfl, rfl, by omega, .inr (by omega)⟩, if_pos (decide_eq_true hn)]
    exact congrArg (some ∘ Number.integer) (by omega)
  · rw [if_pos ⟨rfl, rfl, by omega, .inl (decide_eq_false hn)⟩, if_neg (by simpa using hn)]
    exact congrArg (some ∘ Number.integer) (by omega)

end Numeral

namespace Json
variable {n fuel : Nat} {r : List Char}

theorem hexUnit?_hexPadded (h : n < 0x10000) (r : List Char) :
    hexUnit? (Text.hexPadded 4 n ++ r) = some (n, r) := by
  have hdigit (m : Nat) : Text.hexDigit? (Text.digitChar (m % 16)) = some (m % 16) :=
    Text.hexDigit?_digitChar (m % 16) (Nat.mod_lt m (by decide))
  simp only [Text.hexPadded, List.nil_append, List.cons_append, hexUnit?, List.mapM_cons,
    List.mapM_nil, hdigit, Option.pure_def, Option.bind_eq_bind, Option.bind_some]
  simp [Text.valueOf]
  omega

/-- A character stands for itself, or behind a backslash for what an escape means. -/
theorem escape_cases (c : Char) :
    (escape c = [c] ∧ c ≠ '"' ∧ c ≠ '\\' ∧ ¬ c.toNat < 0x20) ∨
      ∃ e, escape c = '\\' :: e ∧ ∀ r, escaped? (e ++ r) = some (c, r) := by
  have hcode {n : Nat} (h : c.toNat = n) : c = Char.ofNat n := by rw [← h, Char.ofNat_toNat]
  unfold escape
  split_ifs with hquote hslash hnewline hreturn htab hback hfeed hcontrol
  · exact .inr ⟨['"'], rfl, fun r => by rw [hquote]; rfl⟩
  · exact .inr ⟨['\\'], rfl, fun r => by rw [hslash]; rfl⟩
  · exact .inr ⟨['n'], rfl, fun r => by rw [hnewline]; rfl⟩
  · exact .inr ⟨['r'], rfl, fun r => by rw [hreturn]; rfl⟩
  · exact .inr ⟨['t'], rfl, fun r => by rw [htab]; rfl⟩
  · exact .inr ⟨['b'], rfl, fun r => by rw [hcode hback]; rfl⟩
  · exact .inr ⟨['f'], rfl, fun r => by rw [hcode hfeed]; rfl⟩
  · refine .inr ⟨_, rfl, fun r => ?_⟩
    rw [List.cons_append, escaped?, escapedUnit?, hexUnit?_hexPadded (by omega)]
    simp only [Option.bind_eq_bind, Option.bind_some]
    rw [if_neg (by omega), if_neg (by omega), Char.ofNat_toNat]
    rfl
  · exact .inl ⟨rfl, hquote, hslash, hcontrol⟩

theorem length_le_flatMap_escape (s : List Char) : s.length ≤ (s.flatMap escape).length := by
  induction s with
  | nil => exact Nat.le_refl 0
  | cons c s ih =>
    rw [List.flatMap_cons, List.length_append, List.length_cons]
    rcases escape_cases c with ⟨hself, -⟩ | ⟨e, hescape, -⟩
    · rw [hself, List.length_singleton]
      omega
    · rw [hescape, List.length_cons]
      omega

/-- The characters of a string are read back, up to the quote that ends it. -/
theorem stringBody_escape {s : List Char} (h : s.length < fuel) (r : List Char) :
    stringBody fuel (s.flatMap escape ++ '"' :: r) = some (s, r) := by
  induction s generalizing fuel with
  | nil =>
    obtain ⟨fuel, rfl⟩ : ∃ f, fuel = f + 1 := ⟨fuel - 1, by omega⟩
    simp [stringBody]
  | cons c s ih =>
    rw [List.length_cons] at h
    obtain ⟨fuel, rfl⟩ : ∃ f, fuel = f + 1 := ⟨fuel - 1, by omega⟩
    have hrest : stringBody fuel (s.flatMap escape ++ '"' :: r) = some (s, r) := ih (by omega)
    rw [List.flatMap_cons, List.append_assoc]
    rcases escape_cases c with ⟨hself, hquote, hslash, hcontrol⟩ | ⟨e, hescape, hread⟩
    · rw [hself, List.singleton_append, stringBody, if_neg hquote, if_neg hslash, if_neg hcontrol,
        hrest]
      rfl
    · rw [hescape, List.cons_append, stringBody, if_neg (by decide), if_pos rfl, hread]
      simp only [Option.bind_eq_bind, Option.bind_some, hrest]
      rfl

/-- A string is read back after its first quote. -/
theorem string?_escape {s : String} (h : s.toList.length < fuel) (r : List Char) :
    string? fuel (s.toList.flatMap escape ++ '"' :: r) = some (s, r) := by
  rw [string?, stringBody_escape h r]
  simp

end Json
end FleetBoot
