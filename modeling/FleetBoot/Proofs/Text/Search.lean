import FleetBoot.Text.Search
import Mathlib.Data.List.Infix

/-! Where one text first occurs in another, and what replacing it there comes to. -/
namespace FleetBoot.Text
variable {p q s a b : List Char}

/-- The text has `p` between these two parts, and at no earlier place. -/
def FirstAt (p before after s : List Char) : Prop :=
  s = before ++ p ++ after ∧ ∀ b a, s = b ++ p ++ a → before.length ≤ b.length

theorem FirstAt.isInfix (h : FirstAt p a b s) : p <:+: s := ⟨a, b, h.1.symm⟩

theorem FirstAt.unique {a' b' : List Char} (h : FirstAt p a b s) (h' : FirstAt p a' b' s) :
    a = a' ∧ b = b' := by
  have hlength : a.length = a'.length :=
    Nat.le_antisymm (h.2 a' b' h'.1) (h'.2 a b h.1)
  have hparts : a ++ (p ++ b) = a' ++ (p ++ b') := by
    rw [← List.append_assoc, ← List.append_assoc, ← h.1, ← h'.1]
  obtain ⟨ha, hb⟩ := List.append_inj hparts hlength
  exact ⟨ha, List.append_cancel_left hb⟩

/-- Nothing is found before the first place. -/
theorem FirstAt.before_clear (h : FirstAt p a b s) (hp : p ≠ []) : ¬ p <:+: a := by
  rintro ⟨x, y, rfl⟩
  have hless := h.2 x (y ++ p ++ b) (by simp [h.1])
  simp only [List.length_append] at hless
  have hpos := List.length_pos_iff.mpr hp
  omega

/-- Text that follows does not change where `p` first occurs. -/
theorem FirstAt.append (h : FirstAt p a b s) (t : List Char) : FirstAt p a (b ++ t) (s ++ t) := by
  constructor
  · simp [h.1]
  intro before after hsplit
  by_contra hless
  -- an earlier place would lie within `s`
  have hwithin : before ++ p <+: s := by
    apply List.prefix_of_prefix_length_le ⟨after, hsplit.symm⟩ (List.prefix_append s t)
    simp only [h.1, List.length_append]
    omega
  obtain ⟨rest, hrest⟩ := hwithin
  exact hless (h.2 before rest hrest.symm)

theorem dropPrefix?_eq_none_iff : dropPrefix? p s = none ↔ ¬ p <+: s := by
  rw [Option.eq_none_iff_forall_ne_some]
  constructor
  · rintro h ⟨r, hr⟩
    exact h r (dropPrefix?_eq_some_iff.mpr hr.symm)
  · intro h r hr
    exact h ⟨r, (dropPrefix?_eq_some_iff.mp hr).symm⟩

/-- No place is found where there is none. -/
theorem cutAt?_eq_none_iff : cutAt? p s = none ↔ ¬ p <:+: s := by
  induction s with
  | nil =>
    rw [cutAt?, Option.map_eq_none_iff, dropPrefix?_eq_none_iff, List.infix_nil, List.prefix_nil]
  | cons c s ih =>
    rw [List.infix_cons_iff, not_or, ← ih, ← dropPrefix?_eq_none_iff, cutAt?]
    cases dropPrefix? p (c :: s) with
    | some r => simp
    | none => simp

/-- The place that is found is the first. -/
theorem firstAt_of_cutAt? (h : cutAt? p s = some (a, b)) : FirstAt p a b s := by
  refine ⟨eq_of_cutAt? h, ?_⟩
  induction s generalizing a b with
  | nil =>
    obtain ⟨r, -, hr⟩ := Option.map_eq_some_iff.mp h
    cases hr
    exact fun _ _ _ => Nat.zero_le _
  | cons c s ih =>
    rw [cutAt?] at h
    split at h
    · cases h
      exact fun _ _ _ => Nat.zero_le _
    · next hnone =>
      obtain ⟨⟨x, y⟩, hcut, hparts⟩ := Option.map_eq_some_iff.mp h
      cases hparts
      intro before after hsplit
      cases before with
      | nil => exact absurd ⟨after, hsplit.symm⟩ (dropPrefix?_eq_none_iff.mp hnone)
      | cons d before =>
        obtain ⟨-, hrest⟩ := List.cons.inj hsplit
        exact Nat.succ_le_succ (ih hcut before after hrest)

theorem cutAt?_eq_some_iff : cutAt? p s = some (a, b) ↔ FirstAt p a b s := by
  refine ⟨firstAt_of_cutAt?, fun h => ?_⟩
  cases hcut : cutAt? p s with
  | none => exact absurd h.isInfix (cutAt?_eq_none_iff.mp hcut)
  | some parts =>
    obtain ⟨rfl, rfl⟩ := (firstAt_of_cutAt? hcut).unique h
    rfl

theorem exists_firstAt (h : p <:+: s) : ∃ before after, FirstAt p before after s := by
  cases hcut : cutAt? p s with
  | none => exact absurd h (cutAt?_eq_none_iff.mp hcut)
  | some parts => exact ⟨parts.1, parts.2, firstAt_of_cutAt? hcut⟩

/-- A pair is found behind a text that has none, unless one character of it is on either side. -/
theorem cutAt?_append {x y : Char} {s t : List Char} (hs : ¬ [x, y] <:+: s)
    (hseam : s.getLast? = some x → t.head? ≠ some y) :
    cutAt? [x, y] (s ++ t) = (cutAt? [x, y] t).map fun (before, after) => (s ++ before, after) := by
  induction s with
  | nil => simp
  | cons c s ih =>
    rw [List.infix_cons_iff, not_or] at hs
    have hstart : ¬ [x, y] <+: c :: (s ++ t) := by
      intro hpair
      cases s with
      | nil =>
        cases t with
        | nil => simp at hpair
        | cons d t => simp_all [List.cons_prefix_cons]
      | cons d s => exact hs.1 (by simpa [List.cons_prefix_cons] using hpair)
    have hlast : s.getLast? = some x → t.head? ≠ some y := by
      intro h
      apply hseam
      cases s with
      | nil => simp at h
      | cons d s => simpa using h
    rw [List.cons_append, cutAt?, dropPrefix?_eq_none_iff.mpr hstart, ih hs.2 hlast]
    simp [Function.comp_def]

theorem replaceFirst_of_firstAt (h : FirstAt p a b s) : replaceFirst p q s = a ++ q ++ b := by
  rw [replaceFirst, cutAt?_eq_some_iff.mpr h]

theorem replaceFirst_of_not_infix (h : ¬ p <:+: s) : replaceFirst p q s = s := by
  rw [replaceFirst, cutAt?_eq_none_iff.mpr h]

/-- Replacing changes exactly the texts that have what is replaced. -/
theorem replaceFirst_eq_self_iff (h : p ≠ q) : replaceFirst p q s = s ↔ ¬ p <:+: s := by
  refine ⟨fun hself hinfix => ?_, replaceFirst_of_not_infix⟩
  cases hcut : cutAt? p s with
  | none => exact cutAt?_eq_none_iff.mp hcut hinfix
  | some parts =>
    obtain ⟨a, b⟩ := parts
    rw [replaceFirst, hcut] at hself
    have hparts : a ++ q ++ b = a ++ p ++ b := hself.trans (eq_of_cutAt? hcut)
    exact h (List.append_cancel_left (List.append_cancel_right hparts)).symm

theorem splitChar_ne_nil (c : Char) (s : List Char) : splitChar c s ≠ [] := by
  cases s with
  | nil => simp [splitChar]
  | cons d s =>
    simp only [splitChar]
    split
    · simp
    · split <;> simp

/-- The pieces with the separators between them are the text. -/
theorem intercalate_splitChar (c : Char) (s : List Char) :
    [c].intercalate (splitChar c s) = s := by
  induction s with
  | nil => rfl
  | cons d s ih =>
    cases hpieces : splitChar c s with
    | nil => exact absurd hpieces (splitChar_ne_nil c s)
    | cons piece rest =>
      rw [hpieces] at ih
      by_cases hd : d = c
      · simp [splitChar, hd, hpieces, ih, List.intercalate_cons_cons]
      · cases rest with
        | nil => simp_all [splitChar]
        | cons next rest => simp_all [splitChar, List.intercalate_cons_cons]

end FleetBoot.Text
