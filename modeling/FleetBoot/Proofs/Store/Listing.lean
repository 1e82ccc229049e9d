import FleetBoot.Proofs.Store.Change
import FleetBoot.Proofs.Store.Pattern
import FleetBoot.Proofs.Text.Order

/-! The list of what a catalog has: every key once, in the order of the bytes. -/
namespace FleetBoot

namespace ImageKey
variable {a b c : ImageKey}

theorem le_iff : a.le b = true ↔ a.tag < b.tag ∨ a.tag = b.tag ∧ a.type ≤ b.type := by
  simp only [le, Bool.or_eq_true, Bool.and_eq_true, decide_eq_true_eq, beq_iff_eq,
    Std.le_iff_lt_or_eq]

theorem le_trans (hab : a.le b = true) (hbc : b.le c = true) : a.le c = true := by
  rw [le_iff] at hab hbc ⊢
  rcases hab with hab | ⟨htag, hab⟩
  · rcases hbc with hbc | ⟨htag, -⟩
    · exact .inl (String.lt_trans hab hbc)
    · exact .inl (htag ▸ hab)
  · rcases hbc with hbc | ⟨htag', hbc⟩
    · exact .inl (htag ▸ hbc)
    · exact .inr ⟨htag.trans htag', String.le_trans hab hbc⟩

theorem le_total (a b : ImageKey) : (a.le b || b.le a) = true := by
  rw [Bool.or_eq_true, le_iff, le_iff]
  rcases Std.lt_trichotomy a.tag b.tag with h | h | h
  · exact .inl (.inl h)
  · rcases String.le_total a.type b.type with htype | htype
    · exact .inl (.inr ⟨h, htype⟩)
    · exact .inr (.inr ⟨h.symm, htype⟩)
  · exact .inr (.inl h)

end ImageKey

namespace Kind
variable {k : Kind} {a b : k.Key}

/-- The bytes of the one key come first: those of the tag, and of the type where the tags agree. -/
def Before : {k : Kind} → k.Key → k.Key → Prop
  | .payload, a, b => Text.bytes a < Text.bytes b
  | .image, a, b => Text.bytes a.tag < Text.bytes b.tag ∨
      a.tag = b.tag ∧ Text.bytes a.type < Text.bytes b.type

theorem before_of_keyLe (h : keyLe a b = true) (hne : a ≠ b) : Before a b := by
  cases k with
  | payload =>
    rcases Std.le_iff_lt_or_eq.mp (addressLe_iff.mp h) with hlt | heq
    · exact Text.bytes_lt hlt
    · exact absurd heq hne
  | image =>
    rcases ImageKey.le_iff.mp h with hlt | ⟨htag, hle⟩
    · exact .inl (Text.bytes_lt hlt)
    · rcases Std.le_iff_lt_or_eq.mp hle with hlt | htype
      · exact .inr ⟨htag, Text.bytes_lt hlt⟩
      · exact absurd (congr (congrArg ImageKey.mk htag) htype) hne

theorem keyLe_trans (a b c : k.Key) (hab : keyLe a b = true) (hbc : keyLe b c = true) :
    keyLe a c = true := by
  cases k with
  | payload => exact addressLe_trans a b c hab hbc
  | image => exact ImageKey.le_trans hab hbc

theorem keyLe_total (a b : k.Key) : (keyLe a b || keyLe b a) = true := by
  cases k with
  | payload => exact addressLe_total a b
  | image => exact ImageKey.le_total a b

end Kind

/-- The keys of a catalog are listed in strict order. -/
theorem Shelf.available_pairwise {k : Kind} {s : Shelf k} (hs : s.Keyed) :
    s.available.Pairwise Kind.Before := by
  have hsorted : s.available.Pairwise fun a b => Kind.keyLe a b = true :=
    List.pairwise_mergeSort Kind.keyLe_trans Kind.keyLe_total _
  have hnodup : s.available.Nodup := (List.mergeSort_perm _ _).nodup_iff.mpr hs.catalog
  apply (hsorted.and hnodup).imp
  rintro a b ⟨hle, hne⟩
  exact Kind.before_of_keyLe hle hne

end FleetBoot
