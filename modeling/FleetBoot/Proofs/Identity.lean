import FleetBoot.Identity

/-! The letters of canonical names: a token's suffix has hexadecimal digits in small letters only. -/
namespace FleetBoot

namespace Text

/-- Not a capital ASCII letter. -/
def Small (c : Char) : Prop := c.toLower = c

instance (c : Char) : Decidable (Small c) := inferInstanceAs (Decidable (c.toLower = c))

theorem small_of_toNat {c : Char} (h : c.toNat < 65 ∨ 90 < c.toNat) : Small c := by
  unfold Small Char.toLower
  rw [dif_neg]
  rintro ⟨hlow, hhigh⟩
  have hlow : 65 ≤ c.toNat := hlow
  have hhigh : c.toNat ≤ 90 := hhigh
  omega

theorem small_toLower (c : Char) : Small c.toLower := by
  by_cases h : c.toNat < 128
  · have hall : ∀ n < 128, Small (Char.ofNat n).toLower := by decide
    have hc := hall c.toNat h
    rwa [Char.ofNat_toNat] at hc
  · have hsmall : Small c := small_of_toNat (.inr (by omega))
    rw [show c.toLower = c from hsmall]
    exact hsmall

theorem small_ofNat {n : Nat} (h : 90 < n) : Small (Char.ofNat n) := by
  by_cases hvalid : n.isValidChar
  · rw [Char.ofNat, dif_pos hvalid]
    exact small_of_toNat (.inr h)
  · rw [Char.ofNat, dif_neg hvalid]
    decide

/-- The small letters of the table are far from the ASCII capitals. -/
theorem le_small_of_mem_caseRuns : ∀ r ∈ caseRuns, 0x61 ≤ r.small := by decide +kernel

theorem small_lowerChar (c : Char) : ∀ d ∈ lowerChar c, Small d := by
  unfold lowerChar
  split
  · simpa using small_toLower c
  · next hascii =>
    split
    · intro d hd
      simp at hd
      rcases hd with rfl | rfl
      · rfl
      · exact small_ofNat (by decide)
    · split
      · next n hn =>
        obtain ⟨r, hr, hlower⟩ := List.exists_of_findSome?_eq_some hn
        have hsmall := le_small_of_mem_caseRuns r hr
        unfold CaseRun.lower? at hlower
        split at hlower
        · cases hlower
          simpa using small_ofNat (by omega)
        · cases hlower
      · simpa using small_of_toNat (.inr (by omega))

theorem small_lowerAfter (before s : List Char) : ∀ c ∈ lowerAfter before s, Small c := by
  induction s generalizing before with
  | nil => exact nofun
  | cons c s ih =>
    intro d hd
    rcases List.mem_append.mp hd with hd | hd
    · split at hd
      · split at hd
        · cases List.mem_singleton.mp hd
          decide
        · cases List.mem_singleton.mp hd
          decide
      · exact small_lowerChar c d hd
    · exact ih (c :: before) d hd

theorem mem_of_mem_eraseTriple {a b c d : Char} {s : List Char} (h : d ∈ eraseTriple a b c s) :
    d ∈ s := by
  induction s using eraseTriple.induct a b c with
  | case1 x y z s hxyz ih =>
    rw [eraseTriple, if_pos hxyz] at h
    simp [ih h]
  | case2 x y z s hxyz ih =>
    rw [eraseTriple, if_neg hxyz] at h
    rcases List.mem_cons.mp h with rfl | h
    · exact List.mem_cons_self
    · exact List.mem_cons_of_mem x (ih h)
  | case3 s hs =>
    rwa [eraseTriple.eq_2 a b c s hs] at h

end Text

namespace Identity

theorem small_canonical (raw : List Char) : ∀ c ∈ canonical raw, Text.Small c := by
  intro c hc
  have hc : c ∈ Text.eraseTriple '%' '3' 'a' (Text.lowerChars (Text.trimChars raw)) :=
    (List.mem_filter.mp hc).1
  exact Text.small_lowerAfter [] _ c (Text.mem_of_mem_eraseTriple hc)

/-- The suffix of a token has hexadecimal digits in small letters. -/
theorem suffix_of_normalize {raw token suffix : String}
    (h : normalize raw = .ok (.hostname token suffix)) :
    ∀ c ∈ suffix.toList, Text.isHexDigit c = true ∧ Text.Small c := by
  unfold normalize normalizeChars at h
  split at h
  · cases h
  · split at h
    · split at h <;> cases h
    · split at h
      · split at h
        · next hhex =>
          cases h
          intro c hc
          rw [String.toList_ofList] at hc
          have hhex : ∀ c ∈ (canonical raw.toList).drop 1, Text.isHexDigit c = true :=
            List.all_eq_true.mp hhex
          exact ⟨hhex c hc, small_canonical raw.toList c (List.mem_of_mem_drop hc)⟩
        · cases h
      · cases h

end Identity
end FleetBoot
