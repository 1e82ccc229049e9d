import FleetBoot.Address.Cidr
import FleetBoot.Proofs.Address.Text
import FleetBoot.Proofs.Text.Blank

/-! The text of a block is read back as the block, and of the blocks of one length only one holds an
address. -/
namespace FleetBoot

namespace Text

theorem cutAtChar?_of_not_mem {c : Char} {s : List Char} (h : c ∉ s) : cutAtChar? c s = none := by
  unfold cutAtChar?
  induction s with
  | nil => rfl
  | cons d s ih =>
    have hd : c ≠ d := fun heq => h (heq ▸ List.mem_cons_self)
    have hs : c ∉ s := fun hmem => h (List.mem_cons_of_mem d hmem)
    rw [cutAt?, ih hs]
    simp [dropPrefix?, hd]

theorem cutAtChar?_append {c : Char} {s t : List Char} (h : c ∉ s) :
    cutAtChar? c (s ++ c :: t) = some (s, t) := by
  unfold cutAtChar?
  induction s with
  | nil => simp [cutAt?, dropPrefix?]
  | cons d s ih =>
    have hd : c ≠ d := fun heq => h (heq ▸ List.mem_cons_self)
    have hs : c ∉ s := fun hmem => h (List.mem_cons_of_mem d hmem)
    rw [List.cons_append, cutAt?, ih hs]
    simp [dropPrefix?, hd]

end Text

namespace Address

theorem not_blank_of_mem_chars {a : Address} {c : Char} (h : c ∈ a.chars) :
    Text.isBlank c = false := by
  rcases mem_chars h with rfl | rfl | hhex
  · decide
  · decide
  · exact Text.not_blank_of_isHexDigit hhex

theorem not_slash_of_mem_chars (a : Address) : '/' ∉ a.chars := by
  intro h
  exact absurd (mem_chars h) (by decide)

theorem width_lt (a : Address) : a.width < 0x100 := by
  cases a with
  | v4 bits => exact (by decide : 32 < 0x100)
  | v6 bits => exact (by decide : 128 < 0x100)

/-- The longer address that wraps an address of 32 bits. -/
def mapped (bits : BitVec 32) : BitVec 128 := 0xFFFF#96 ++ bits

theorem mapped?_mapped (bits : BitVec 32) : mapped? (mapped bits) = some bits := by
  have hhigh : mapped bits >>> 32 = 0xFFFF#128 := by
    apply BitVec.eq_of_toNat_eq
    have hlt := bits.isLt
    rw [toNat_shiftRight, mapped, BitVec.toNat_append, ← Nat.shiftLeft_add_eq_or_of_lt hlt,
      Nat.shiftLeft_eq]
    simp only [BitVec.toNat_ofNat]
    omega
  have hlow : (mapped bits).setWidth 32 = bits := BitVec.setWidth_append_eq_right
  rw [mapped?, if_pos hhigh, hlow]

theorem canonical_mapped (bits : BitVec 32) :
    canonical (.v6 (mapped bits)) = canonical (.v4 bits) := by
  simp only [canonical, mapped?_mapped]

end Address

namespace Cidr
variable {b c : Cidr} {ip : Address}

theorem length?_decimal {n : Nat} (h : n < 0x100) : length? (Text.decimal n) = some n := by
  have hplus : '+' ∉ Text.decimal n := fun hmem =>
    absurd (Text.isDigit_of_mem_decimal hmem) (by decide)
  rw [length?, Text.decimal?_decimal]
  · exact if_pos h
  · intro r hr
    exact hplus (hr ▸ List.mem_cons_self)

theorem ofAddress?_network (c : Cidr) : ofAddress? c.network c.length = some c := by
  unfold ofAddress?
  rw [dif_pos c.length_le]
  exact congrArg some (ext' c.kept rfl)

/-- Every block is the one that its text names. -/
theorem parse?_text (c : Cidr) : parse? c.text = some c := by
  have hlength : c.length < 0x100 := c.length_le.trans_lt c.network.width_lt
  have hblank : ∀ d ∈ c.network.chars ++ '/' :: Text.decimal c.length, Text.isBlank d = false := by
    intro d hd
    rw [List.mem_append, List.mem_cons] at hd
    rcases hd with hd | rfl | hd
    · exact Address.not_blank_of_mem_chars hd
    · decide
    · exact Text.not_blank_of_isHexDigit (Text.isHexDigit_of_isDigit (Text.isDigit_of_mem_decimal hd))
  rw [parse?, text, textOf, String.toList_ofList, Text.trimChars_eq_self hblank, ofChars?,
    Text.cutAtChar?_append c.network.not_slash_of_mem_chars]
  simp only [Address.ofChars?_chars, length?_decimal hlength, Option.bind_eq_bind,
    Option.bind_some, ofAddress?_network]

theorem text_injective (h : b.text = c.text) : b = c := by
  have hparse := congrArg parse? h
  rwa [parse?_text, parse?_text, Option.some_inj] at hparse

theorem contains_iff : c.contains ip = true ↔
    c.network.sameFamily ip.canonical = true ∧ ip.canonical.keep c.length = c.network := by
  rw [contains, Bool.and_eq_true, beq_iff_eq]

/-- Blocks of one length that share an address are the same. -/
theorem eq_of_contains (hb : b.contains ip = true) (hc : c.contains ip = true)
    (hlength : b.length = c.length) : b = c := by
  have hb := (contains_iff.mp hb).2
  have hc := (contains_iff.mp hc).2
  rw [hlength] at hb
  exact ext' (hb.symm.trans hc) hlength

theorem contains_mapped (c : Cidr) (bits : BitVec 32) :
    c.contains (.v6 (Address.mapped bits)) = c.contains (.v4 bits) := by
  rw [contains, contains, Address.canonical_mapped]

end Cidr
end FleetBoot
