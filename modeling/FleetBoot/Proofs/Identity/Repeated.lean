import FleetBoot.Proofs.Identity.Separators
import FleetBoot.Proofs.Text.Lowercase
import Mathlib

/-! Reading an accepted name again. An address is its own name, and so is a token, unless separators
that were left out have brought a blank or a coded colon to its start: the second reading leaves that
out, and the rest is too short for a name. -/
namespace FleetBoot

namespace Text
variable {a b c d : Char} {s : List Char}

/-- Where only the first character can start the row, and does not, nothing is left out. -/
theorem eraseTriple_of_not_prefix (h : ¬ [a, b, c] <+: d :: s) (hs : a ∉ s) :
    eraseTriple a b c (d :: s) = d :: s := by
  by_cases hd : d = a
  · subst hd
    cases s with
    | nil => rfl
    | cons x s =>
      cases s with
      | nil => rfl
      | cons y s =>
        have hrow : ¬ (d = d ∧ x = b ∧ y = c) := by
          rintro ⟨-, rfl, rfl⟩
          exact h (List.prefix_append [d, x, y] s)
        rw [eraseTriple, if_neg hrow, eraseTriple_eq_self hs]
  · rw [eraseTriple_of_ne hd, eraseTriple_eq_self hs]

/-- The text starts with a blank. -/
def StartsBlank (s : List Char) : Prop := ∃ c ∈ s.head?, isBlank c = true

/-- The text starts with a colon as it is coded in small letters. -/
def StartsCoded (s : List Char) : Prop := ['%', '3', 'a'] <+: s

theorem startsBlank_cons : StartsBlank (c :: s) ↔ isBlank c = true := by simp [StartsBlank]

theorem StartsBlank.not_coded (h : StartsBlank s) : ¬ StartsCoded s := by
  rintro ⟨rest, rfl⟩
  exact absurd (startsBlank_cons.mp h) (by decide)

end Text

theorem SmallHex.not_mem {c : Char} {s : List Char} (h : SmallHex s)
    (hc : Text.isHexDigit c = false) : c ∉ s := by
  intro hmem
  rw [(h c hmem).1] at hc
  cases hc

theorem SmallHex.lowered {s : List Char} (h : SmallHex s) : ∀ c ∈ s, Text.Lowered c :=
  fun c hc => Text.lowered_of_ascii (h.ascii c hc) (h c hc).2

namespace Identity
variable {raw token suffix : String} {sign : Char} {s : List Char} {identity : Identity}

theorem lowered_canonical (raw : List Char) : ∀ c ∈ canonical raw, Text.Lowered c := by
  intro c hc
  have hc : c ∈ Text.eraseTriple '%' '3' 'a' (Text.lowerChars (Text.trimChars raw)) :=
    (List.mem_filter.mp hc).1
  exact Text.lowered_lowerAfter [] _ c (Text.mem_of_mem_eraseTriple hc)

theorem colon_not_mem_canonical (raw : List Char) : ':' ∉ canonical raw := by
  intro hc
  exact absurd (List.mem_filter.mp hc).2 (by decide)

/-- A blank before the digits is trimmed. -/
theorem canonical_of_blank (hsign : Text.isBlank sign = true) (hs : SmallHex s) :
    canonical (sign :: s) = s := by
  have hpadded : canonical ([sign] ++ s ++ []) = canonical s :=
    canonical_padded (List.forall_mem_singleton.mpr hsign) nofun
  rw [List.append_nil, canonical_eq_self hs] at hpadded
  exact hpadded

theorem spelled_of_smallHex (hs : SmallHex s) : Spelled s s := by
  induction s with
  | nil => exact .nil
  | cons c s ih =>
    obtain ⟨hc, hs⟩ := List.forall_mem_cons.mp hs
    exact .digit hc.1 (ih hs)

/-- A coded colon before the digits is left out. -/
theorem canonical_of_coded (hs : SmallHex s) : canonical ('%' :: '3' :: 'a' :: s) = s := by
  have hspelled : Spelled s ("%3a".toList ++ s) := .separator _ (by decide) (spelled_of_smallHex hs)
  have hsmall : s.map Char.toLower = s.map id := List.map_congr_left fun c hc => (hs c hc).2
  exact hspelled.canonical_eq.trans (hsmall.trans (List.map_id s))

/-- Of any other sign before the digits nothing is left out. -/
theorem canonical_of_plain (hblank : Text.isBlank sign = false) (hsign : Text.Lowered sign)
    (hcolon : sign ≠ ':') (hcoded : ¬ Text.StartsCoded (sign :: s)) (hs : SmallHex s) :
    canonical (sign :: s) = sign :: s := by
  have hblanks : ∀ c ∈ sign :: s, Text.isBlank c = false :=
    List.forall_mem_cons.mpr ⟨hblank, fun c hc => Text.not_blank_of_isHexDigit (hs c hc).1⟩
  have hcolons : ∀ c ∈ sign :: s, c ≠ ':' :=
    List.forall_mem_cons.mpr ⟨hcolon, fun c hc heq => hs.not_mem (by decide) (heq ▸ hc)⟩
  rw [canonical, Text.trimChars_eq_self hblanks,
    Text.lowerChars_of_lowered (List.forall_mem_cons.mpr ⟨hsign, hs.lowered⟩),
    Text.eraseTriple_of_not_prefix hcoded (hs.not_mem (by decide)), Text.eraseChar,
    List.filter_eq_self.mpr fun c hc => decide_eq_true (hcolons c hc)]

/-- What an accepted token comes down to when it is read again. -/
theorem canonical_token_cases (h : normalize raw = .ok (.hostname token suffix)) :
    (Text.StartsBlank token.toList ∧ (canonical token.toList).length = 6) ∨
      (Text.StartsCoded token.toList ∧ (canonical token.toList).length = 4) ∨
      (¬ Text.StartsBlank token.toList ∧ ¬ Text.StartsCoded token.toList ∧
        canonical token.toList = token.toList) := by
  obtain ⟨hraw, sign, htoken⟩ := token_of_normalize h
  have hdigits : SmallHex suffix.toList := suffix_of_normalize h
  have hlength : suffix.toList.length = 6 := length_suffix h
  have hsign : sign ∈ canonical raw.toList := hraw ▸ htoken ▸ List.mem_cons_self
  rw [htoken, Text.startsBlank_cons]
  by_cases hblank : Text.isBlank sign = true
  · exact .inl ⟨hblank, by rw [canonical_of_blank hblank hdigits, hlength]⟩
  · by_cases hcoded : Text.StartsCoded (sign :: suffix.toList)
    · obtain ⟨s, hs⟩ := id hcoded
      have hrest : '%' :: '3' :: 'a' :: s = sign :: suffix.toList := hs
      -- the coded colon takes the first two digits of the suffix with it
      have hsuffix : suffix.toList = '3' :: 'a' :: s := (List.cons.inj hrest).2.symm
      have hsmall : SmallHex s := fun c hc => hdigits c (by simp [hsuffix, hc])
      rw [hsuffix] at hlength
      refine .inr (.inl ⟨hcoded, ?_⟩)
      rw [← hrest, canonical_of_coded hsmall]
      exact Nat.add_right_cancel (m := 2) hlength
    · refine .inr (.inr ⟨hblank, hcoded, ?_⟩)
      exact canonical_of_plain (Bool.eq_false_iff.mpr hblank) (lowered_canonical _ sign hsign)
        (fun heq => colon_not_mem_canonical raw.toList (heq ▸ hsign)) hcoded hdigits

/-- An accepted token that comes down to itself names what it named. -/
theorem normalize_token (h : normalize raw = .ok (.hostname token suffix))
    (hself : canonical token.toList = token.toList) :
    normalize token = .ok (.hostname token suffix) := by
  obtain ⟨-, sign, htoken⟩ := token_of_normalize h
  have hlength : suffix.toList.length = 6 := length_suffix h
  have hdrop : token.toList.drop 1 = suffix.toList := by rw [htoken, List.drop_one, List.tail_cons]
  have hhex : isHex (token.toList.drop 1) = true :=
    List.all_eq_true.mpr fun c hc => (suffix_of_normalize h c (hdrop ▸ hc)).1
  have htokenLength : token.toList.length = tokenLength := by
    rw [htoken, List.length_cons, hlength]
    rfl
  rw [normalize, hself, normalizeChars_token token htokenLength hhex, hdrop,
    String.ofList_toList, String.ofList_toList]

theorem normalize_invalidLength {n : Nat} (hlength : (canonical raw.toList).length = n)
    (h0 : n ≠ 0) (h12 : n ≠ 12) (h7 : n ≠ 7) :
    normalize raw = .error (.invalidLength raw n) := by
  subst hlength
  exact normalizeChars_invalidLength raw h0 h12 h7

theorem plain_of_canonicalMac {mac : String} (h : CanonicalMac mac) :
    ¬ Text.StartsBlank mac.toList ∧ ¬ Text.StartsCoded mac.toList := by
  constructor
  · rintro ⟨c, hc, hblank⟩
    have hdigit := (h.digits c (List.mem_of_head? hc)).1
    rw [Text.not_blank_of_isHexDigit hdigit] at hblank
    cases hblank
  · intro hcoded
    exact h.digits.not_mem (by decide) (hcoded.subset List.mem_cons_self)

/-- The text of an accepted identity is accepted as the same identity, unless it starts with a blank
or with a coded colon. It then is a token, and is refused with six digits left of it, or with four. -/
theorem normalize_again (h : normalize raw = .ok identity) :
    let s := identity.text.toList
    (¬ Text.StartsBlank s → ¬ Text.StartsCoded s → normalize identity.text = .ok identity) ∧
      (Text.StartsBlank s → normalize identity.text = .error (.invalidLength identity.text 6)) ∧
      (Text.StartsCoded s → normalize identity.text = .error (.invalidLength identity.text 4)) ∧
      (identity.form = .mac → ¬ Text.StartsBlank s ∧ ¬ Text.StartsCoded s) := by
  intro s
  cases identity with
  | mac mac =>
    have hmac := canonical_of_normalize h
    obtain ⟨hblank, hcoded⟩ := plain_of_canonicalMac hmac
    exact ⟨fun _ _ => normalize_canonical hmac, fun h => absurd h hblank,
      fun h => absurd h hcoded, fun _ => ⟨hblank, hcoded⟩⟩
  | hostname token suffix =>
    change let s := token.toList
      (¬ Text.StartsBlank s → ¬ Text.StartsCoded s → normalize token = _) ∧
        (Text.StartsBlank s → normalize token = _) ∧ (Text.StartsCoded s → normalize token = _) ∧ _
    have hform : (Identity.hostname token suffix).form ≠ .mac := nofun
    rcases canonical_token_cases h with ⟨hblank, hlength⟩ | ⟨hcoded, hlength⟩ |
      ⟨hblank, hcoded, hself⟩
    · exact ⟨fun h => absurd hblank h,
        fun _ => normalize_invalidLength hlength (by decide) (by decide) (by decide),
        fun h => absurd h hblank.not_coded, fun h => absurd h hform⟩
    · exact ⟨fun _ h => absurd hcoded h, fun h => absurd hcoded h.not_coded,
        fun _ => normalize_invalidLength hlength (by decide) (by decide) (by decide),
        fun h => absurd h hform⟩
    · exact ⟨fun _ _ => normalize_token h hself, fun h => absurd h hblank,
        fun h => absurd h hcoded, fun h => absurd h hform⟩

/-- A token with a letter outside ASCII, whose small form depends on what stands before it. -/
theorem normalize_again_sigma :
    normalize "%3AΣ11:22:33" = .ok (.hostname "ς112233" "112233") ∧
      normalize "ς112233" = .ok (.hostname "ς112233" "112233") := by
  have hraw : normalize "%3AΣ11:22:33" = .ok (.hostname "ς112233" "112233") := by cbv
  have hblank : ¬ Text.StartsBlank "ς112233".toList := by
    rw [show "ς112233".toList = 'ς' :: "112233".toList by cbv, Text.startsBlank_cons]
    decide
  have hcoded : ¬ Text.StartsCoded "ς112233".toList := by
    intro h
    exact absurd (h.subset List.mem_cons_self) (by decide)
  exact ⟨hraw, (normalize_again hraw).1 hblank hcoded⟩

/-- A blank and a coded colon that come to the start where a colon is left out. Both tokens are
accepted, and neither is accepted again. -/
theorem normalize_again_exposed :
    normalize ": 112233" = .ok (.hostname " 112233" "112233") ∧
      normalize " 112233" = .error (.invalidLength " 112233" 6) ∧
      normalize "%:3a1122" = .ok (.hostname "%3a1122" "3a1122") ∧
      normalize "%3a1122" = .error (.invalidLength "%3a1122" 4) := by
  refine ⟨?_, ?_, ?_, ?_⟩ <;> cbv

end Identity
end FleetBoot
