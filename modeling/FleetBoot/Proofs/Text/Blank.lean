import FleetBoot.Text.Blank
import FleetBoot.Text.Digits
import Mathlib.Data.List.DropRight

/-! What trimming leaves of a text: nothing of one that is blank, and all of one that is trimmed or
has no blanks. Hexadecimal digits are no blanks. -/
namespace FleetBoot.Text

theorem dropWhile_eq_self {p : Char → Bool} {s : List Char} (h : ∀ c ∈ s, p c = false) :
    s.dropWhile p = s := by
  cases s with
  | nil => rfl
  | cons c s => rw [List.dropWhile_cons_of_neg (by simp [h c List.mem_cons_self])]

/-- Nothing is trimmed from a text without blanks. -/
theorem trimChars_eq_self {s : List Char} (h : ∀ c ∈ s, isBlank c = false) : trimChars s = s := by
  have hreverse : ∀ c ∈ s.reverse, isBlank c = false := fun c hc => h c (List.mem_reverse.mp hc)
  rw [trimChars, dropBlanks, dropWhile_eq_self h, dropTrailing, dropWhile_eq_self hreverse,
    List.reverse_reverse]

theorem mem_of_mem_trimChars {c : Char} {s : List Char} (h : c ∈ trimChars s) : c ∈ s :=
  (List.dropWhile_suffix isBlank).mem ((List.rdropWhile_prefix isBlank _).mem h)

/-- The text has no characters but blanks. -/
def Blank (s : String) : Prop := ∀ c ∈ s.toList, isBlank c = true

instance (s : String) : Decidable (Blank s) := List.decidableBAll _ s.toList

theorem dropTrailing_eq_nil_iff {p : Char → Bool} {s : List Char} :
    dropTrailing p s = [] ↔ ∀ c ∈ s, p c = true := List.rdropWhile_eq_nil_iff

theorem dropTrailing_append {p : Char → Bool} {s t : List Char} (h : ∃ c ∈ t, p c = false) :
    dropTrailing p (s ++ t) = s ++ dropTrailing p t := by
  obtain ⟨c, hc, hp⟩ := h
  have hkept : (t.reverse.dropWhile p).isEmpty = false := by
    rw [List.isEmpty_eq_false_iff, Ne, List.dropWhile_eq_nil_iff]
    intro hall
    rw [hall c (List.mem_reverse.mpr hc)] at hp
    cases hp
  rw [dropTrailing, List.reverse_append, List.dropWhile_append, hkept, if_neg Bool.false_ne_true,
    List.reverse_append, List.reverse_reverse, dropTrailing]

theorem dropBlanks_dropBlanks (s : List Char) : dropBlanks (dropBlanks s) = dropBlanks s :=
  List.dropWhile_idempotent isBlank s

theorem trimChars_eq_nil_iff {s : List Char} : trimChars s = [] ↔ ∀ c ∈ s, isBlank c = true := by
  rw [trimChars, dropTrailing_eq_nil_iff, ← List.dropWhile_eq_nil_iff, ← List.dropWhile_eq_nil_iff]
  change dropBlanks (dropBlanks s) = [] ↔ dropBlanks s = []
  rw [dropBlanks_dropBlanks]

/-- Blanks around a text are trimmed, whatever the text. -/
theorem trimChars_padded {before s after : List Char} (hbefore : ∀ c ∈ before, isBlank c = true)
    (hafter : ∀ c ∈ after, isBlank c = true) :
    trimChars (before ++ s ++ after) = trimChars s := by
  have hreverse : ∀ c ∈ after.reverse, isBlank c = true := fun c hc =>
    hafter c (List.mem_reverse.mp hc)
  have hstart : dropBlanks (before ++ s ++ after) = dropBlanks (s ++ after) := by
    rw [dropBlanks, List.append_assoc, List.dropWhile_append_of_pos hbefore, ← dropBlanks]
  rw [trimChars, hstart, dropBlanks, List.dropWhile_append]
  split
  · next hblank =>
    have hs : dropBlanks s = [] := List.isEmpty_iff.mp hblank
    rw [List.dropWhile_eq_nil_iff.mpr hafter, trimChars, hs]
  · rw [dropTrailing, List.reverse_append, List.dropWhile_append_of_pos hreverse]
    rfl

/-- A text is what trimming leaves of it, with blanks around it. -/
theorem exists_trimChars (s : List Char) : ∃ before after, s = before ++ trimChars s ++ after ∧
    (∀ c ∈ before, isBlank c = true) ∧ ∀ c ∈ after, isBlank c = true := by
  refine ⟨s.takeWhile isBlank, (dropBlanks s).rtakeWhile isBlank, ?_,
    fun c => List.mem_takeWhile_imp, fun c => List.mem_rtakeWhile_imp⟩
  have htrim : trimChars s ++ (dropBlanks s).rtakeWhile isBlank = dropBlanks s :=
    List.rdropWhile_append_rtakeWhile
  rw [List.append_assoc, htrim, dropBlanks, List.takeWhile_append_dropWhile]

/-- Trimming leaves something of a text unless it is blank. -/
theorem trim_isEmpty_iff {s : String} : (trim s).isEmpty = true ↔ Blank s := by
  rw [String.isEmpty_iff, ← String.toList_eq_nil_iff, trim_toList, trimChars_eq_nil_iff, Blank]

/-- What is dropped from the end uncovers no blanks at the beginning. -/
theorem dropBlanks_dropTrailing (s : List Char) :
    dropBlanks (dropTrailing isBlank (dropBlanks s)) = dropTrailing isBlank (dropBlanks s) := by
  have hfix := List.dropWhile_eq_self_iff.mp (dropBlanks_dropBlanks s)
  have hstart : dropTrailing isBlank (dropBlanks s) <+: dropBlanks s :=
    List.rdropWhile_prefix isBlank _
  apply List.dropWhile_eq_self_iff.mpr
  intro hlength
  rw [hstart.getElem hlength]
  exact hfix (by have := hstart.length_le; omega)

@[simp] theorem trim_trim (s : String) : trim (trim s) = trim s := by
  have hchars : trimChars (trimChars s.toList) = trimChars s.toList := by
    rw [trimChars, trimChars, dropBlanks_dropTrailing]
    exact List.rdropWhile_idempotent isBlank _
  rw [trim, trim_toList, hchars, ← trim]

theorem bounds_of_isHexDigit {c : Char} (h : isHexDigit c = true) :
    48 ≤ c.toNat ∧ c.toNat ≤ 102 := by
  unfold isHexDigit hexDigit? at h
  split at h
  · next hc =>
    have hlow : 48 ≤ c.toNat := hc.1
    have hhigh : c.toNat ≤ 57 := hc.2
    omega
  · split at h
    · next hc =>
      have hlow : 97 ≤ c.toNat := hc.1
      have hhigh : c.toNat ≤ 102 := hc.2
      omega
    · split at h
      · next hc =>
        have hlow : 65 ≤ c.toNat := hc.1
        have hhigh : c.toNat ≤ 70 := hc.2
        omega
      · cases h

theorem not_blank_of_isHexDigit {c : Char} (h : isHexDigit c = true) : isBlank c = false := by
  obtain ⟨hlow, hhigh⟩ := bounds_of_isHexDigit h
  simp [isBlank]
  omega

end FleetBoot.Text
