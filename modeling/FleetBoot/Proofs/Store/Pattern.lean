import FleetBoot.Proofs.Identity
import FleetBoot.Proofs.Store.Rows

/-! Rows that a token finds and rows that it selects. The pattern takes capitals for small letters
and stops at a NUL, and the rows that it finds are cut off before any is selected. -/
namespace FleetBoot

theorem mem_suffixes {α : Type} {s t : List α} : t ∈ suffixes s ↔ t <:+ s := by
  induction s with
  | nil => simp [suffixes]
  | cons a s ih => simp [suffixes, ih, List.suffix_cons_iff]

theorem covers_any (p s : List Char) : covers ('%' :: p) s = (suffixes s).any (covers p) := by
  cases s <;> simp [covers]

theorem covers_cons_nil {c : Char} (hc : c ≠ '%') (p : List Char) : covers (c :: p) [] = false := by
  simp [covers, hc]

theorem covers_cons {c : Char} (hc : c ≠ '%') (p : List Char) (d : Char) (s : List Char) :
    covers (c :: p) (d :: s) = ((c = '_' || sameLetter c d) && covers p s) := by
  rw [covers, if_neg hc]

/-- A pattern without wildcards covers itself. -/
theorem covers_self {p : List Char} (hp : ∀ c ∈ p, c ≠ '%') : covers p p = true := by
  induction p with
  | nil => rfl
  | cons c p ih =>
    have hrest : covers p p = true := ih fun d hd => hp d (List.mem_cons_of_mem c hd)
    rw [covers_cons (hp c List.mem_cons_self), hrest]
    simp [sameLetter]

/-- Among texts without capitals it covers no other. -/
theorem eq_of_covers {p s : List Char} (hp : ∀ c ∈ p, c ≠ '%' ∧ c ≠ '_' ∧ Text.Small c)
    (hs : ∀ c ∈ s, Text.Small c) (h : covers p s = true) : p = s := by
  induction p generalizing s with
  | nil => exact (List.isEmpty_iff.mp h).symm
  | cons c p ih =>
    obtain ⟨hany, hone, hsmall⟩ := hp c List.mem_cons_self
    cases s with
    | nil => cases (covers_cons_nil hany p).symm.trans h
    | cons d s =>
      rw [covers_cons hany] at h
      simp only [hone, decide_false, Bool.false_or, Bool.and_eq_true] at h
      obtain ⟨hletter, hrest⟩ := h
      have hcd : c.toLower = d.toLower := of_decide_eq_true hletter
      have hd : Text.Small d := hs d List.mem_cons_self
      have heq : c = d := hsmall.symm.trans (hcd.trans hd)
      rw [heq, ih (fun e he => hp e (List.mem_cons_of_mem c he))
        (fun e he => hs e (List.mem_cons_of_mem d he)) hrest]

/-- An address as clients spell it: without NULs and without capitals. -/
structure Plain (mac : String) : Prop where
  noNul : ∀ c ∈ mac.toList, c.toNat ≠ 0
  small : ∀ c ∈ mac.toList, Text.Small c

section Tokens
variable {raw token suffix mac : String}

theorem takeWhile_of_noNul (h : ∀ c ∈ mac.toList, c.toNat ≠ 0) :
    mac.toList.takeWhile (fun c => c.toNat ≠ 0) = mac.toList := by
  have hall : ∀ c ∈ mac.toList, decide (c.toNat ≠ 0) = true := fun c hc => decide_eq_true (h c hc)
  rw [← List.append_nil mac.toList, List.takeWhile_append_of_pos hall, List.takeWhile_nil]

theorem digit_of_normalize (h : Identity.normalize raw = .ok (.hostname token suffix)) :
    ∀ c ∈ suffix.toList, c ≠ '%' ∧ c ≠ '_' ∧ Text.Small c := by
  intro c hc
  obtain ⟨hhex, hsmall⟩ := Identity.suffix_of_normalize h c hc
  refine ⟨?_, ?_, hsmall⟩
  · rintro rfl
    exact absurd hhex (by decide)
  · rintro rfl
    exact absurd hhex (by decide)

theorem finds_hostname (token suffix mac : String) :
    (Identity.hostname token suffix).finds mac =
      (suffixes (mac.toList.takeWhile fun c => c.toNat ≠ 0)).any (covers suffix.toList) := by
  have hpattern : (Identity.hostname token suffix).pattern.toList = '%' :: suffix.toList := by
    simp [Identity.pattern]
  rw [Identity.finds, hpattern, covers_any]

theorem selects_hostname (token suffix mac : String) :
    (Identity.hostname token suffix).selects mac = true ↔ suffix.toList <:+ mac.toList := by
  rw [Identity.selects, List.isSuffixOf_iff_suffix]

theorem finds_of_selects (h : Identity.normalize raw = .ok (.hostname token suffix))
    (hmac : ∀ c ∈ mac.toList, c.toNat ≠ 0)
    (hselects : (Identity.hostname token suffix).selects mac = true) :
    (Identity.hostname token suffix).finds mac = true := by
  rw [selects_hostname] at hselects
  rw [finds_hostname, takeWhile_of_noNul hmac, List.any_eq_true]
  refine ⟨suffix.toList, mem_suffixes.mpr hselects, ?_⟩
  exact covers_self fun c hc => (digit_of_normalize h c hc).1

theorem selects_of_finds (h : Identity.normalize raw = .ok (.hostname token suffix))
    (hmac : Plain mac) (hfinds : (Identity.hostname token suffix).finds mac = true) :
    (Identity.hostname token suffix).selects mac = true := by
  rw [finds_hostname, takeWhile_of_noNul hmac.noNul, List.any_eq_true] at hfinds
  obtain ⟨t, ht, hcovers⟩ := hfinds
  have hsuffix : t <:+ mac.toList := mem_suffixes.mp ht
  have heq : suffix.toList = t :=
    eq_of_covers (digit_of_normalize h) (fun c hc => hmac.small c (hsuffix.subset hc)) hcovers
  rw [selects_hostname, heq]
  exact hsuffix

end Tokens

/-- Addresses in order. -/
def addressLe (a b : String) : Bool := a < b || a == b

theorem addressLe_iff {a b : String} : addressLe a b = true ↔ a ≤ b := by
  simp only [addressLe, Bool.or_eq_true, decide_eq_true_eq, beq_iff_eq]
  exact Std.le_iff_lt_or_eq.symm

theorem addressLe_trans (a b c : String) (hab : addressLe a b = true) (hbc : addressLe b c = true) :
    addressLe a c = true :=
  addressLe_iff.mpr (String.le_trans (addressLe_iff.mp hab) (addressLe_iff.mp hbc))

theorem addressLe_total (a b : String) : (addressLe a b || addressLe b a) = true := by
  simp only [Bool.or_eq_true, addressLe_iff]
  exact String.le_total a b

namespace Shelf
variable {k : Kind} {s : Shelf k} {identity : Identity}

/-- The rows that the identity finds, in order. -/
def found (s : Shelf k) (identity : Identity) : List (Assignment k) :=
  (s.assignments.filter fun a => identity.finds a.mac).mergeSort macLe

/-- The stored addresses that the identity selects, in order. -/
def ending (s : Shelf k) (identity : Identity) : List String :=
  ((s.assignments.map (·.mac)).filter identity.selects).mergeSort addressLe

theorem find_eq (s : Shelf k) (identity : Identity) (limit : Nat) :
    s.find identity limit = ((s.found identity).take limit).map s.hydrate := rfl

theorem mem_found {a : Assignment k} :
    a ∈ s.found identity ↔ a ∈ s.assignments ∧ identity.finds a.mac = true := by
  rw [found, List.mem_mergeSort, List.mem_filter]

theorem macLe_eq (a b : Assignment k) : macLe a b = addressLe a.mac b.mac := rfl

theorem found_pairwise (s : Shelf k) (identity : Identity) :
    (s.found identity).Pairwise fun a b => addressLe a.mac b.mac = true := by
  simp only [← macLe_eq]
  apply List.pairwise_mergeSort
  · intro a b c hab hbc
    rw [macLe_eq] at hab hbc ⊢
    exact addressLe_trans a.mac b.mac c.mac hab hbc
  · intro a b
    rw [macLe_eq, macLe_eq]
    exact addressLe_total a.mac b.mac

/-- If all that is selected is found, then the selected ones among the found are all. -/
theorem map_found (h : ∀ a ∈ s.assignments, identity.selects a.mac = true →
    identity.finds a.mac = true) :
    ((s.found identity).filter fun a => identity.selects a.mac).map (·.mac) =
      s.ending identity := by
  have hperm : (((s.found identity).filter fun a => identity.selects a.mac).map (·.mac)).Perm
      (s.ending identity) := by
    have hboth : (s.assignments.filter fun a => identity.finds a.mac).filter
        (fun a => identity.selects a.mac) = s.assignments.filter fun a => identity.selects a.mac := by
      rw [List.filter_filter]
      apply List.filter_congr
      intro a ha
      cases hselects : identity.selects a.mac with
      | false => rfl
      | true => simp [h a ha hselects]
    have hfound : (s.found identity).Perm (s.assignments.filter fun a => identity.finds a.mac) :=
      List.mergeSort_perm _ macLe
    have hselected := (hfound.filter fun a => identity.selects a.mac).map (·.mac)
    rw [hboth] at hselected
    have hending : ((s.assignments.map (·.mac)).filter identity.selects).Perm (s.ending identity) :=
      (List.mergeSort_perm _ addressLe).symm
    rw [List.filter_map] at hending
    exact hselected.trans hending
  have hleft : (((s.found identity).filter fun a => identity.selects a.mac).map (·.mac)).Pairwise
      fun a b => addressLe a b = true :=
    List.pairwise_map.mpr ((found_pairwise s identity).filter _)
  have hright : (s.ending identity).Pairwise fun a b => addressLe a b = true :=
    List.pairwise_mergeSort addressLe_trans addressLe_total _
  refine List.Perm.eq_of_pairwise ?_ hleft hright hperm
  intro a b _ _ hab hba
  exact String.le_antisymm (addressLe_iff.mp hab) (addressLe_iff.mp hba)

end Shelf
end FleetBoot
