import FleetBoot.Proofs.Identity

/-! Small letters stay as they are. What lower case gives of a text is in lower case, letter by
letter, so that a second pass changes nothing. -/
namespace FleetBoot.Text
variable {c d : Char} {m n : Nat} {r t : CaseRun} {s : List Char}

/-- A character that lower case leaves as it is, wherever it stands. -/
def Lowered (c : Char) : Prop := c ≠ 'Σ' ∧ lowerChar c = [c]

instance (c : Char) : Decidable (Lowered c) := inferInstanceAs (Decidable (_ ∧ _))

theorem lowered_of_ascii (hascii : c.toNat < 0x80) (hsmall : Small c) : Lowered c := by
  constructor
  · rintro rfl
    exact absurd hascii (by decide)
  · rw [lowerChar_ascii hascii, show c.toLower = c from hsmall]

theorem lowered_of_no_capital (hsigma : c ≠ 'Σ') (hascii : ¬ c.toNat < 0x80)
    (hdotted : c.toNat ≠ 0x130) (h : caseRuns.findSome? (·.lower? c.toNat) = none) : Lowered c := by
  refine ⟨hsigma, ?_⟩
  rw [lowerChar, if_neg hascii, if_neg hdotted, h]

theorem lowerChars_of_lowered (h : ∀ c ∈ s, Lowered c) : lowerChars s = s := by
  have hafter (before : List Char) : lowerAfter before s = s := by
    induction s generalizing before with
    | nil => rfl
    | cons c s ih =>
      obtain ⟨hsigma, hself⟩ := h c List.mem_cons_self
      rw [lowerAfter, if_neg hsigma, hself, ih fun d hd => h d (List.mem_cons_of_mem c hd)]
      rfl
  exact hafter []

/-- No small letter of the one run is a capital of the other: they lie apart, or both go in steps of
two and never meet. The dotted capital, which is in no run, lies apart too. -/
def CaseRun.apart (r t : CaseRun) : Bool :=
  (Nat.blt (r.small + (r.last - r.first)) t.first || Nat.blt t.last r.small ||
    (Nat.beq t.step 2 && (Nat.beq r.step 2 || Nat.beq r.first r.last) &&
      Nat.beq ((r.small + t.first) % 2) 1)) &&
  (Nat.blt (r.small + (r.last - r.first)) 0x130 || Nat.blt 0x130 r.small)

theorem apart_caseRuns : (caseRuns.all fun r => caseRuns.all r.apart) = true := by decide +kernel

theorem apart_of_mem (hr : r ∈ caseRuns) (ht : t ∈ caseRuns) : r.apart t = true :=
  List.all_eq_true.mp (List.all_eq_true.mp apart_caseRuns r hr) t ht

theorem CaseRun.lower?_eq_some_iff : r.lower? m = some n ↔
    r.first ≤ m ∧ m ≤ r.last ∧ (m - r.first) % r.step = 0 ∧ n = r.small + (m - r.first) := by
  unfold CaseRun.lower?
  split
  · next h => simp [h, eq_comm]
  · next h =>
    simp only [reduceCtorEq, false_iff]
    rintro ⟨hfirst, hlast, hstep, -⟩
    exact h ⟨hfirst, hlast, hstep⟩

/-- No small letter is a capital. -/
theorem lower?_of_apart (hm : r.lower? m = some n) (h : r.apart t = true) :
    t.lower? n = none ∧ n ≠ 0x130 := by
  obtain ⟨hfirst, hlast, hstep, rfl⟩ := CaseRun.lower?_eq_some_iff.mp hm
  simp only [CaseRun.apart, Bool.and_eq_true, Bool.or_eq_true, Nat.blt_eq, Nat.beq_eq] at h
  obtain ⟨hapart, hdotted⟩ := h
  refine ⟨Option.eq_none_iff_forall_ne_some.mpr fun k hk => ?_, by omega⟩
  obtain ⟨hlow, hhigh, hmeet, -⟩ := CaseRun.lower?_eq_some_iff.mp hk
  rcases hapart with (hbelow | habove) | ⟨⟨htwo, hsteps⟩, hodd⟩
  · omega
  · omega
  · rw [htwo] at hmeet
    rcases hsteps with htwo' | hone
    · rw [htwo'] at hstep
      omega
    · omega

theorem lowered_of_lower? (hr : r ∈ caseRuns) (h : r.lower? m = some n) :
    Lowered (Char.ofNat n) := by
  by_cases hvalid : n.isValidChar
  · have hnat : (Char.ofNat n).toNat = n := by rw [Char.ofNat, dif_pos hvalid]; rfl
    have hsmall := le_small_of_mem_caseRuns r hr
    obtain ⟨-, -, -, hn⟩ := CaseRun.lower?_eq_some_iff.mp h
    by_cases hascii : n < 0x80
    · exact lowered_of_ascii (hnat.symm ▸ hascii) (small_ofNat (by omega))
    · have hapart (t : CaseRun) (ht : t ∈ caseRuns) := lower?_of_apart h (apart_of_mem hr ht)
      have hnone : caseRuns.findSome? (·.lower? n) = none :=
        List.findSome?_eq_none_iff.mpr fun t ht => (hapart t ht).1
      refine lowered_of_no_capital ?_ (hnat.symm ▸ hascii) (hnat.symm ▸ (hapart r hr).2) ?_
      · -- the capital sigma is in a run, too
        intro hsigma
        rw [← hnat, hsigma] at hnone
        exact absurd hnone (by decide +kernel)
      · rw [hnat]
        exact hnone
  · rw [Char.ofNat, dif_neg hvalid]
    decide

theorem lowered_lowerChar (hsigma : c ≠ 'Σ') (h : d ∈ lowerChar c) : Lowered d := by
  have hsmall := small_lowerChar c d h
  unfold lowerChar at h
  split at h
  · next hascii =>
    obtain rfl := List.mem_singleton.mp h
    have hlow : ∀ n < 0x80, (Char.ofNat n).toLower.toNat < 0x80 := by decide
    have hc := hlow c.toNat hascii
    rw [Char.ofNat_toNat] at hc
    exact lowered_of_ascii hc hsmall
  · next hascii =>
    split at h
    · simp only [List.mem_cons, List.not_mem_nil, or_false] at h
      rcases h with rfl | rfl <;> decide +kernel
    · next hdotted =>
      split at h
      · next n hn =>
        obtain rfl := List.mem_singleton.mp h
        obtain ⟨r, hr, hlower⟩ := List.exists_of_findSome?_eq_some hn
        exact lowered_of_lower? hr hlower
      · next hnone =>
        obtain rfl := List.mem_singleton.mp h
        exact lowered_of_no_capital hsigma hascii hdotted hnone

/-- What lower case gives is in lower case. -/
theorem lowered_lowerAfter (before s : List Char) : ∀ d ∈ lowerAfter before s, Lowered d := by
  induction s generalizing before with
  | nil => exact nofun
  | cons c s ih =>
    intro d hd
    rcases List.mem_append.mp hd with hd | hd
    · split at hd
      · split at hd <;>
        · obtain rfl := List.mem_singleton.mp hd
          decide +kernel
      · next hsigma => exact lowered_lowerChar hsigma hd
    · exact ih (c :: before) d hd

/-- A second pass changes nothing. -/
theorem lowerChars_lowerChars (s : List Char) : lowerChars (lowerChars s) = lowerChars s :=
  lowerChars_of_lowered (lowered_lowerAfter [] s)

end FleetBoot.Text
