import FleetBoot.Proofs.Canonical

/-! The spellings of a name. Separators among its digits, the case of the digits and outer blanks do
not change what a name comes down to, and nothing but canonical names ever comes out. -/
namespace FleetBoot

namespace Text
variable {c a b d : Char} {s : List Char}

/-- The hexadecimal digits of canonical names. -/
def smallDigits : List Char := "0123456789abcdef".toList

/-- A fact about the ASCII characters holds of every hexadecimal digit. -/
theorem forall_isHexDigit {p : Char → Prop}
    (h : ∀ n < 128, isHexDigit (Char.ofNat n) = true → p (Char.ofNat n))
    (hc : isHexDigit c = true) : p c := by
  have hlow : c.toNat < 128 := (bounds_of_isHexDigit hc).2.trans_lt (by decide)
  have hp := h c.toNat hlow
  rw [Char.ofNat_toNat] at hp
  exact hp hc

theorem mem_smallDigits (hhex : isHexDigit c = true) (hsmall : Small c) : c ∈ smallDigits :=
  forall_isHexDigit (p := fun c => Small c → c ∈ smallDigits) (by decide) hhex hsmall

theorem isHexDigit_toLower (hc : isHexDigit c = true) : isHexDigit c.toLower = true :=
  forall_isHexDigit (p := fun c => isHexDigit c.toLower = true) (by decide) hc

theorem lowerChars_ascii (h : ∀ c ∈ s, c.toNat < 0x80) : lowerChars s = s.map Char.toLower := by
  have hafter (before : List Char) : lowerAfter before s = s.map Char.toLower := by
    induction s generalizing before with
    | nil => rfl
    | cons c s ih =>
      have hascii := h c List.mem_cons_self
      have hne : c ≠ 'Σ' := by
        rintro rfl
        exact absurd hascii (by decide)
      rw [lowerAfter, if_neg hne, lowerChar_ascii hascii,
        ih (fun d hd => h d (List.mem_cons_of_mem c hd))]
      rfl
  exact hafter []

theorem eraseTriple_self (a b c : Char) (s : List Char) :
    eraseTriple a b c (a :: b :: c :: s) = eraseTriple a b c s := by
  rw [eraseTriple, if_pos ⟨rfl, rfl, rfl⟩]

theorem eraseTriple_of_ne (h : d ≠ a) : eraseTriple a b c (d :: s) = d :: eraseTriple a b c s := by
  cases s with
  | nil => rfl
  | cons x s =>
    cases s with
    | nil => rfl
    | cons y s => rw [eraseTriple, if_neg fun hmatch => h hmatch.1]

theorem eraseChar_self (c : Char) (s : List Char) : eraseChar c (c :: s) = eraseChar c s := by
  simp [eraseChar]

theorem eraseChar_of_ne (h : d ≠ c) : eraseChar c (d :: s) = d :: eraseChar c s := by
  simp [eraseChar, h]

end Text

namespace Identity
variable {raw token suffix : String} {ds s before after : List Char} {identity : Identity}

/-- The ways in which a colon is written among the digits of a name. -/
def separators : List (List Char) := [":".toList, "%3a".toList, "%3A".toList]

/-- The text has these hexadecimal digits, in either case, and among them, before and after them any
number of separators. -/
inductive Spelled : List Char → List Char → Prop where
  | nil : Spelled [] []
  | digit {c : Char} {ds s : List Char} (hex : Text.isHexDigit c = true) (rest : Spelled ds s) :
      Spelled (c :: ds) (c :: s)
  | separator (mark : List Char) {ds s : List Char} (known : mark ∈ separators)
      (rest : Spelled ds s) : Spelled ds (mark ++ s)

theorem Spelled.isHex (h : Spelled ds s) : isHex ds = true := by
  induction h with
  | nil => rfl
  | digit hex _ ih => rw [Identity.isHex, List.all_cons, hex, ← Identity.isHex, ih, Bool.and_self]
  | separator _ _ _ ih => exact ih

theorem plain_of_mem_separators {mark : List Char} (h : mark ∈ separators) :
    ∀ c ∈ mark, c.toNat < 0x80 ∧ Text.isBlank c = false := by
  have hall : (separators.all fun mark => mark.all fun c =>
      c.toNat < 0x80 && !Text.isBlank c) = true := by decide
  intro c hc
  simpa using List.all_eq_true.mp (List.all_eq_true.mp hall mark h) c hc

/-- A spelled name is in ASCII and has no blanks. -/
theorem Spelled.plain (h : Spelled ds s) : ∀ c ∈ s, c.toNat < 0x80 ∧ Text.isBlank c = false := by
  induction h with
  | nil => exact nofun
  | digit hex _ ih =>
    have hlow := (Text.bounds_of_isHexDigit hex).2
    exact List.forall_mem_cons.mpr ⟨⟨by omega, Text.not_blank_of_isHexDigit hex⟩, ih⟩
  | separator mark known _ ih =>
    exact List.forall_mem_append.mpr ⟨plain_of_mem_separators known, ih⟩

/-- Coded colons are left out first and then plain ones, and the digits remain. -/
theorem Spelled.erase (h : Spelled ds s) :
    Text.eraseChar ':' (Text.eraseTriple '%' '3' 'a' (s.map Char.toLower)) =
      ds.map Char.toLower := by
  induction h with
  | nil => rfl
  | @digit c ds s hex _ ih =>
    have hlower := Text.isHexDigit_toLower hex
    have hpercent : c.toLower ≠ '%' := fun heq => absurd (heq ▸ hlower) (by decide)
    have hcolon : c.toLower ≠ ':' := fun heq => absurd (heq ▸ hlower) (by decide)
    rw [List.map_cons, Text.eraseTriple_of_ne hpercent, Text.eraseChar_of_ne hcolon, ih,
      List.map_cons]
  | @separator mark ds s known _ ih =>
    have hcoded : Text.eraseTriple '%' '3' 'a' ('%' :: '3' :: 'a' :: s.map Char.toLower) =
        Text.eraseTriple '%' '3' 'a' (s.map Char.toLower) := Text.eraseTriple_self _ _ _ _
    simp only [separators, List.mem_cons, List.not_mem_nil, or_false] at known
    rcases known with rfl | rfl | rfl
    · -- a plain colon is still there after the coded ones are left out
      exact (congrArg _ (Text.eraseTriple_of_ne (by decide))).trans
        ((Text.eraseChar_self _ _).trans ih)
    · exact (congrArg _ hcoded).trans ih
    · exact (congrArg _ hcoded).trans ih

/-- Outer blanks do not count. -/
theorem canonical_padded (hbefore : ∀ c ∈ before, Text.isBlank c = true)
    (hafter : ∀ c ∈ after, Text.isBlank c = true) :
    canonical (before ++ s ++ after) = canonical s := by
  rw [canonical, Text.trimChars_padded hbefore hafter, ← canonical]

/-- A spelled name comes down to its digits in small letters. -/
theorem Spelled.canonical_eq (h : Spelled ds s) : canonical s = ds.map Char.toLower := by
  rw [canonical, Text.trimChars_eq_self fun c hc => (h.plain c hc).2,
    Text.lowerChars_ascii fun c hc => (h.plain c hc).1, h.erase]

theorem normalizeChars_mac (raw : String) (hlength : s.length = macLength) (hhex : isHex s = true) :
    normalizeChars raw s = .ok (.mac (String.ofList s)) := by
  have hne : ¬ s.isEmpty = true := by
    rw [List.isEmpty_iff, ← List.length_eq_zero_iff, hlength]
    decide
  rw [normalizeChars, if_neg hne, if_pos hlength, if_pos hhex]

theorem normalizeChars_token (raw : String) (hlength : s.length = tokenLength)
    (hhex : isHex (s.drop 1) = true) :
    normalizeChars raw s = .ok (.hostname (String.ofList s) (String.ofList (s.drop 1))) := by
  have hne : ¬ s.isEmpty = true := by
    rw [List.isEmpty_iff, ← List.length_eq_zero_iff, hlength]
    decide
  have hshort : s.length ≠ macLength := by
    rw [hlength]
    decide
  rw [normalizeChars, if_neg hne, if_neg hshort, if_pos hlength, if_pos hhex]

theorem normalizeChars_invalidLength (raw : String) (hne : s.length ≠ 0)
    (hmac : s.length ≠ macLength) (htoken : s.length ≠ tokenLength) :
    normalizeChars raw s = .error (.invalidLength raw s.length) := by
  have hne : ¬ s.isEmpty = true := by rwa [List.isEmpty_iff, ← List.length_eq_zero_iff]
  rw [normalizeChars, if_neg hne, if_neg hmac, if_neg htoken]

/-- A token is one sign and its suffix, and is all that its raw name comes down to. -/
theorem token_of_normalize (h : normalize raw = .ok (.hostname token suffix)) :
    canonical raw.toList = token.toList ∧ ∃ sign, token.toList = sign :: suffix.toList := by
  unfold normalize normalizeChars at h
  split at h
  · cases h
  · split at h
    · split at h <;> cases h
    · split at h
      · next hlength =>
        split at h
        · obtain ⟨rfl, rfl⟩ := Identity.hostname.inj (Except.ok.inj h)
          rw [String.toList_ofList, String.toList_ofList]
          cases hs : canonical raw.toList with
          | nil =>
            rw [hs] at hlength
            cases hlength
          | cons sign s => exact ⟨rfl, sign, rfl⟩
        · cases h
      · cases h

/-- An address of twelve small digits, or a token of one character of any kind and a suffix of six
small digits. -/
def WellFormed : Identity → Prop
  | .mac address => address.toList.length = 12 ∧ ∀ c ∈ address.toList, c ∈ Text.smallDigits
  | .hostname token suffix => (∃ sign, token.toList = sign :: suffix.toList) ∧
      suffix.toList.length = 6 ∧ ∀ c ∈ suffix.toList, c ∈ Text.smallDigits

theorem wellFormed_of_normalize (h : normalize raw = .ok identity) : identity.WellFormed := by
  cases identity with
  | mac address =>
    obtain ⟨hlength, hdigits⟩ := canonical_of_normalize h
    exact ⟨hlength, fun c hc => Text.mem_smallDigits (hdigits c hc).1 (hdigits c hc).2⟩
  | hostname token suffix =>
    have hdigits := suffix_of_normalize h
    exact ⟨(token_of_normalize h).2, length_suffix h, fun c hc =>
      Text.mem_smallDigits (hdigits c hc).1 (hdigits c hc).2⟩

/-- A raw name of hexadecimal digits, in any case, with separators among them and blanks around them
names what its digits in small letters do: twelve an address, seven a token, and none or any other
number of them nothing, which the error says. Whatever is accepted, of this form or not, is an
address of twelve small digits or a token with a suffix of six. -/
theorem normalize_spelled :
    (∀ (raw : String) (before ds s after : List Char), raw.toList = before ++ s ++ after →
      (∀ c ∈ before, Text.isBlank c = true) → (∀ c ∈ after, Text.isBlank c = true) →
      Spelled ds s →
      let small := ds.map Char.toLower
      (ds.length = 12 → normalize raw = .ok (.mac (String.ofList small))) ∧
        (ds.length = 7 →
          normalize raw = .ok (.hostname (String.ofList small) (String.ofList (small.drop 1)))) ∧
        (ds.length = 0 → normalize raw = .error .missing) ∧
        (ds.length ≠ 12 → ds.length ≠ 7 → ds.length ≠ 0 →
          normalize raw = .error (.invalidLength raw ds.length))) ∧
      ∀ (raw : String) (identity : Identity), normalize raw = .ok identity →
        identity.WellFormed := by
  refine ⟨?_, fun raw identity => wellFormed_of_normalize⟩
  intro raw before ds s after hraw hbefore hafter hspelled small
  have hnormalize : normalize raw = normalizeChars raw small := by
    rw [normalize, hraw, canonical_padded hbefore hafter, hspelled.canonical_eq]
  have hlength : small.length = ds.length := List.length_map _
  have hhex : ∀ c ∈ small, Text.isHexDigit c = true := by
    intro c hc
    obtain ⟨d, hd, rfl⟩ := List.mem_map.mp hc
    exact Text.isHexDigit_toLower (List.all_eq_true.mp hspelled.isHex d hd)
  rw [hnormalize, ← hlength]
  refine ⟨fun h12 => ?_, fun h7 => ?_, fun h0 => ?_, fun h12 h7 h0 => ?_⟩
  · exact normalizeChars_mac raw h12 (List.all_eq_true.mpr hhex)
  · exact normalizeChars_token raw h7
      (List.all_eq_true.mpr fun c hc => hhex c (List.mem_of_mem_drop hc))
  · rw [List.length_eq_zero_iff.mp h0]
    rfl
  · exact normalizeChars_invalidLength raw h0 h12 h7

/-- Twelve digits in both cases with all three separators, and blanks around them. -/
theorem normalize_spelled_twelve :
    let s := ":aA%3aBb%3A%3A0C:1d2E3f:".toList
    Spelled "aABb0C1d2E3f".toList s ∧
      normalize "\t:aA%3aBb%3A%3A0C:1d2E3f:\n" = .ok (.mac "aabb0c1d2e3f") := by
  intro s
  have hspelled : Spelled "aABb0C1d2E3f".toList s := by
    refine .separator [':'] (by decide) (.digit (by decide) (.digit (by decide) ?_))
    refine .separator "%3a".toList (by decide) ?_
    refine .digit (by decide) (.digit (by decide) ?_)
    refine .separator "%3A".toList (by decide) ?_
    refine .separator "%3A".toList (by decide) ?_
    refine .digit (by decide) (.digit (by decide) ?_)
    refine .separator [':'] (by decide) ?_
    refine .digit (by decide) (.digit (by decide) (.digit (by decide) (.digit (by decide) ?_)))
    refine .digit (by decide) (.digit (by decide) ?_)
    exact .separator [':'] (by decide) .nil
  refine ⟨hspelled, ?_⟩
  have hbefore : ∀ c ∈ ['\t'], Text.isBlank c = true := List.forall_mem_singleton.mpr (by decide)
  have hafter : ∀ c ∈ ['\n'], Text.isBlank c = true := List.forall_mem_singleton.mpr (by decide)
  exact (normalize_spelled.1 _ _ _ s _ rfl hbefore hafter hspelled).1 rfl

end Identity
end FleetBoot
