import FleetBoot.Proofs.Identity
import FleetBoot.Proofs.Text.Blank

/-! Canonical addresses: twelve hexadecimal digits in small letters. They are what names come down
to, and each of them is its own name. -/
namespace FleetBoot

namespace Text

theorem lowerChars_eq_self {s : List Char} (h : ∀ c ∈ s, c.toNat < 0x80 ∧ Small c) :
    lowerChars s = s := by
  have hafter (before : List Char) : lowerAfter before s = s := by
    induction s generalizing before with
    | nil => rfl
    | cons c s ih =>
      obtain ⟨hascii, hsmall⟩ := h c List.mem_cons_self
      have hne : c ≠ 'Σ' := by
        rintro rfl
        exact absurd hascii (by decide)
      rw [lowerAfter, if_neg hne, lowerChar_ascii hascii, show c.toLower = c from hsmall,
        ih (fun d hd => h d (List.mem_cons_of_mem c hd))]
      rfl
  exact hafter []

theorem eraseTriple_eq_self {a b c : Char} {s : List Char} (h : a ∉ s) :
    eraseTriple a b c s = s := by
  induction s using eraseTriple.induct a b c with
  | case1 x y z s hxyz ih => exact absurd (hxyz.1 ▸ List.mem_cons_self) h
  | case2 x y z s hxyz ih =>
    rw [eraseTriple, if_neg hxyz, ih fun hmem => h (List.mem_cons_of_mem x hmem)]
  | case3 s hs => exact eraseTriple.eq_2 a b c s hs

end Text

/-- Hexadecimal digits in small letters. -/
def SmallHex (s : List Char) : Prop := ∀ c ∈ s, Text.isHexDigit c = true ∧ Text.Small c

theorem SmallHex.ascii {s : List Char} (h : SmallHex s) : ∀ c ∈ s, c.toNat < 0x80 := fun c hc =>
  Nat.lt_of_le_of_lt (Text.bounds_of_isHexDigit (h c hc).1).2 (by decide)

/-- An address as names come down to it. -/
structure CanonicalMac (mac : String) : Prop where
  length : mac.toList.length = Identity.macLength
  digits : SmallHex mac.toList

namespace Identity
variable {raw mac token suffix : String}

theorem canonical_eq_self {s : List Char} (h : SmallHex s) : canonical s = s := by
  have hlow : ∀ c ∈ s, c.toNat < 0x80 ∧ Text.Small c := fun c hc => ⟨h.ascii c hc, (h c hc).2⟩
  have hpercent : '%' ∉ s := fun hmem => absurd (h '%' hmem).1 (by decide)
  have hcolon : ∀ c ∈ s, c ≠ ':' := by
    rintro c hc rfl
    exact absurd (h ':' hc).1 (by decide)
  rw [canonical, Text.trimChars_eq_self fun c hc => Text.not_blank_of_isHexDigit (h c hc).1,
    Text.lowerChars_eq_self hlow, Text.eraseTriple_eq_self hpercent, Text.eraseChar,
    List.filter_eq_self.mpr fun c hc => decide_eq_true (hcolon c hc)]

/-- A canonical address names itself. -/
theorem normalize_canonical (h : CanonicalMac mac) : normalize mac = .ok (.mac mac) := by
  have hne : mac.toList.isEmpty = false := by
    rw [List.isEmpty_eq_false_iff, ← List.length_pos_iff, h.length]
    decide
  have hhex : isHex mac.toList = true := List.all_eq_true.mpr fun c hc => (h.digits c hc).1
  rw [normalize, canonical_eq_self h.digits, normalizeChars, hne, if_neg Bool.false_ne_true,
    if_pos h.length, if_pos hhex, String.ofList_toList]

/-- Names come down to canonical addresses. -/
theorem canonical_of_normalize (h : normalize raw = .ok (.mac mac)) : CanonicalMac mac := by
  unfold normalize normalizeChars at h
  split at h
  · cases h
  · split at h
    · next hlength =>
      split at h
      · next hhex =>
        obtain rfl := Identity.mac.inj (Except.ok.inj h)
        refine ⟨by rw [String.toList_ofList, hlength], fun c hc => ?_⟩
        rw [String.toList_ofList] at hc
        exact ⟨List.all_eq_true.mp hhex c hc, small_canonical raw.toList c hc⟩
      · cases h
    · split at h
      · split at h <;> cases h
      · cases h

theorem length_suffix (h : normalize raw = .ok (.hostname token suffix)) :
    suffix.toList.length = suffixLength := by
  unfold normalize normalizeChars at h
  split at h
  · cases h
  · split at h
    · split at h <;> cases h
    · split at h
      · next hlength =>
        split at h
        · obtain ⟨-, rfl⟩ := Identity.hostname.inj (Except.ok.inj h)
          rw [String.toList_ofList, List.length_drop, hlength]
          rfl
        · cases h
      · cases h

theorem byteCount_eq_length {s : List Char} (h : ∀ c ∈ s, c.toNat < 0x80) :
    byteCount s = s.length := by
  induction s with
  | nil => rfl
  | cons c s ih =>
    have hsize : c.utf8Size = 1 := by
      have hlow : c.toNat < 0x80 := h c List.mem_cons_self
      exact Char.utf8Size_eq_one_iff.mpr (Nat.le_of_lt_succ hlow)
    have hrest := ih fun d hd => h d (List.mem_cons_of_mem c hd)
    rw [byteCount] at hrest
    rw [byteCount, List.foldr_cons, hsize, hrest, List.length_cons, Nat.add_comm]

/-- Of ASCII letters the last bytes are the last letters. -/
theorem lastBytes_eq_drop {s : List Char} (h : ∀ c ∈ s, c.toNat < 0x80) (k : Nat) :
    lastBytes k s = s.drop (s.length - k) := by
  induction s with
  | nil => simp [lastBytes]
  | cons c s ih =>
    have hs : ∀ d ∈ s, d.toNat < 0x80 := fun d hd => h d (List.mem_cons_of_mem c hd)
    rw [lastBytes, byteCount_eq_length h, byteCount_eq_length hs, List.length_cons]
    by_cases hle : s.length + 1 ≤ k
    · rw [if_pos hle, Nat.sub_eq_zero_of_le hle, List.drop_zero]
    · have hsucc : s.length + 1 - k = (s.length - k) + 1 := by omega
      rw [if_neg hle, if_neg (by omega), ih hs, hsucc, List.drop_succ_cons]

/-- A canonical address has the host name of its last six digits. -/
theorem hostName_mac (h : CanonicalMac mac) :
    hostNameOf? mac = some (hostName (.mac mac)) := by
  have hhex : isHex mac.toList = true := List.all_eq_true.mpr fun c hc => (h.digits c hc).1
  rw [hostNameOf?, hostName, lastBytes_eq_drop h.digits.ascii, h.length]
  exact if_pos ⟨rfl, hhex⟩

/-- A token has the host name of the canonical addresses that it selects. -/
theorem hostName_token (hraw : normalize raw = .ok (.hostname token suffix))
    (hmac : CanonicalMac mac) (h : (Identity.hostname token suffix).selects mac = true) :
    hostName (.hostname token suffix) = hostName (.mac mac) := by
  have hsuffix : suffix.toList <:+ mac.toList := List.isSuffixOf_iff_suffix.mp h
  rw [hostName, hostName, lastBytes_eq_drop hmac.digits.ascii,
    List.suffix_iff_eq_drop.mp hsuffix, length_suffix hraw]

end Identity
end FleetBoot
