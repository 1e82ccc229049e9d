import FleetBoot.Proofs.Address.Cidr

/-! Blocks as sets of addresses. An address is in a block if it has its family and its first bits, so
that of two blocks one lies in the other or they share no address. -/
namespace FleetBoot

namespace Address
variable {a b : Address} {n : Nat}

theorem eq_mapped_of_mapped? {bits : BitVec 128} {short : BitVec 32} (h : mapped? bits = some short) :
    bits = mapped short := by
  unfold mapped? at h
  split at h
  · next hhigh =>
    cases h
    have hhigh := congrArg BitVec.toNat hhigh
    rw [toNat_shiftRight] at hhigh
    apply BitVec.eq_of_toNat_eq
    have hlt := (bits.setWidth 32).isLt
    rw [mapped, BitVec.toNat_append, ← Nat.shiftLeft_add_eq_or_of_lt hlt, Nat.shiftLeft_eq]
    simp only [BitVec.toNat_ofNat, BitVec.toNat_setWidth] at hhigh ⊢
    omega
  · cases h

/-- An address stands for the shorter one that it wraps, and else for itself. -/
theorem canonical_cases (a : Address) :
    (∃ bits, a = .v6 (mapped bits) ∧ a.canonical = .v4 bits) ∨
      (∀ bits, a ≠ .v6 (mapped bits)) ∧ a.canonical = a := by
  cases a with
  | v4 bits => exact .inr ⟨nofun, rfl⟩
  | v6 bits =>
    rw [canonical]
    cases hshort : mapped? bits with
    | some short => exact .inl ⟨short, congrArg v6 (eq_mapped_of_mapped? hshort), rfl⟩
    | none =>
      refine .inr ⟨?_, rfl⟩
      rintro short ⟨⟩
      rw [mapped?_mapped] at hshort
      cases hshort

/-- The bit at a place, counted from the first. -/
def bit : Address → Nat → Bool
  | .v4 bits, i => bits.getMsbD i
  | .v6 bits, i => bits.getMsbD i

/-- A shift to the left by less than the width. There is no other. -/
def shift? {w : Nat} (bits : BitVec w) (k : Nat) : Option (BitVec w) :=
  if k < w then some (bits <<< k) else none

/-- The first bits by a shift that has to be less than the width, and none of more bits than there
are. -/
def keepBits? {w : Nat} (bits : BitVec w) (length : Nat) : Option (BitVec w) :=
  if length = 0 then some 0#w
  else if length ≤ w then (shift? (BitVec.allOnes w) (w - length)).map (bits &&& ·)
  else none

def keep? (length : Nat) : Address → Option Address
  | .v4 bits => (keepBits? bits length).map .v4
  | .v6 bits => (keepBits? bits length).map .v6

theorem keepBits?_eq {w : Nat} (bits : BitVec w) {length : Nat} (h : length ≤ w) :
    keepBits? bits length = some (keepBits bits length) := by
  unfold keepBits? keepBits
  split
  · rfl
  · next hpos =>
    have hshift : w - length < w := by omega
    rw [shift?, if_pos hshift, Option.map_some]

/-- No shift is by the full width or more. -/
theorem keep?_eq (h : n ≤ a.width) : a.keep? n = some (a.keep n) := by
  cases a <;> exact congrArg (Option.map _) (keepBits?_eq _ h)

theorem keepBits_getMsbD {w : Nat} (bits : BitVec w) (length i : Nat) :
    (keepBits bits length).getMsbD i = (decide (i < length) && bits.getMsbD i) := by
  simp only [BitVec.getMsbD, keepBits_getLsbD]
  by_cases hi : i < w
  · have hplace : w - length ≤ w - 1 - i ↔ i < length := by omega
    simp only [hi, hplace, decide_true, Bool.true_and]
  · simp only [hi, decide_false, Bool.false_and, Bool.and_false]

theorem keepBits_eq_iff {w : Nat} {x y : BitVec w} :
    keepBits x n = keepBits y n ↔ ∀ i < n, x.getMsbD i = y.getMsbD i := by
  constructor
  · intro h i hi
    have hbit := congrArg (BitVec.getMsbD · i) h
    simpa only [keepBits_getMsbD, hi, decide_true, Bool.true_and] using hbit
  · intro h
    apply BitVec.eq_of_getMsbD_eq
    intro i _
    rw [keepBits_getMsbD, keepBits_getMsbD]
    by_cases hi : i < n
    · rw [h i hi]
    · simp only [hi, decide_false, Bool.false_and]

/-- Two addresses have the same first bits if they are of one family and agree place by place. -/
theorem keep_eq_iff : a.keep n = b.keep n ↔
    b.sameFamily a = true ∧ ∀ i < n, a.bit i = b.bit i := by
  cases a <;> cases b <;> simp [keep, sameFamily, bit, keepBits_eq_iff]

theorem sameFamily_keep (n : Nat) (a b : Address) :
    (a.keep n).sameFamily b = a.sameFamily b := by
  cases a <;> cases b <;> rfl

theorem width_eq_of_sameFamily (h : a.sameFamily b = true) : a.width = b.width := by
  cases a <;> cases b <;> first | rfl | cases h

end Address

namespace Cidr
variable {a ip : Address} {n : Nat} {b c : Cidr}

theorem new_cases (a : Address) (n : Nat) :
    a.width < n ∧ new a n = .error ⟨textOf a n⟩ ∨
      n ≤ a.width ∧ ∃ c, new a n = .ok c ∧ c.network = a.keep n ∧ c.length = n := by
  unfold new ofAddress?
  by_cases h : n ≤ a.width
  · rw [dif_pos h]
    exact .inr ⟨h, _, rfl, rfl, rfl⟩
  · rw [dif_neg h]
    exact .inl ⟨Nat.lt_of_not_le h, rfl⟩

theorem of_new (h : new a n = .ok c) : n ≤ a.width ∧ c.network = a.keep n ∧ c.length = n := by
  rcases new_cases a n with ⟨-, herror⟩ | ⟨hn, d, hd, hnetwork, hlength⟩
  · cases herror.symm.trans h
  · cases hd.symm.trans h
    exact ⟨hn, hnetwork, hlength⟩

/-- An address is in a block if it agrees with the block's on its first bits. -/
theorem contains_iff_bits : c.contains ip = true ↔
    c.network.sameFamily ip.canonical = true ∧
      ∀ i < c.length, ip.canonical.bit i = c.network.bit i := by
  have hkeep : ip.canonical.keep c.length = c.network ↔
      ip.canonical.keep c.length = c.network.keep c.length := by rw [c.kept]
  rw [contains_iff, hkeep, Address.keep_eq_iff, and_self_left]

theorem contains_iff_of_new (h : new a n = .ok c) : c.contains ip = true ↔
    a.sameFamily ip.canonical = true ∧ ∀ i < n, ip.canonical.bit i = a.bit i := by
  obtain ⟨-, hnetwork, hlength⟩ := of_new h
  rw [contains_iff, hnetwork, hlength, Address.sameFamily_keep, Address.keep_eq_iff, and_self_left]

/-- Every address of the one block is in the other. -/
def Within (b c : Cidr) : Prop := ∀ ip, b.contains ip = true → c.contains ip = true

/-- Of two blocks that share an address the one of more bits lies in the other. -/
theorem within_of_contains (hb : b.contains ip = true) (hc : c.contains ip = true)
    (hlength : b.length ≤ c.length) : c.Within b := by
  intro other hother
  rw [contains_iff_bits] at hb hc hother ⊢
  have hagree : ∀ i < b.length, c.network.bit i = b.network.bit i := fun i hi =>
    (hc.2 i (hi.trans_le hlength)).symm.trans (hb.2 i hi)
  have hfamily : b.network.sameFamily other.canonical = true := by
    have hbfamily := hb.1
    have hcfamily := hc.1
    have hofamily := hother.1
    revert hbfamily hcfamily hofamily
    cases b.network <;> cases c.network <;> cases other.canonical <;> cases ip.canonical <;>
      simp [Address.sameFamily]
  exact ⟨hfamily, fun i hi => (hother.2 i (hi.trans_le hlength)).trans (hagree i hi)⟩

/-- Two blocks are nested or disjoint. -/
theorem within_or_disjoint (b c : Cidr) :
    b.Within c ∨ c.Within b ∨ ∀ ip, ¬ (b.contains ip = true ∧ c.contains ip = true) := by
  by_cases hshared : ∃ ip, b.contains ip = true ∧ c.contains ip = true
  · obtain ⟨ip, hb, hc⟩ := hshared
    rcases Nat.le_total b.length c.length with hle | hle
    · exact .inr (.inl (within_of_contains hb hc hle))
    · exact .inl (within_of_contains hc hb hle)
  · exact .inr (.inr fun ip h => hshared ⟨ip, h⟩)

/-- A block can be made of as many bits as its address has, and of no more, and no mask on the way
is shifted by the full width. It holds the addresses of its family that agree with its own on these
bits, where an address counts as the shorter one that it wraps. Two blocks that share an address are
nested by their lengths, and equal if these are. -/
theorem blocks_exact (a : Address) (n : Nat) :
    (a.width < n ∧ new a n = .error ⟨textOf a n⟩ ∨ n ≤ a.width ∧ ∃ c, new a n = .ok c) ∧
      (∀ c, new a n = .ok c → a.keep? n = some c.network ∧ ∀ ip : Address,
        (a.sameFamily ip.canonical = true →
          ip.canonical.keep? n = some (ip.canonical.keep n)) ∧
        (c.contains ip = true ↔
          a.sameFamily ip.canonical = true ∧ ∀ i < n, ip.canonical.bit i = a.bit i)) ∧
      (∀ ip : Address, (∃ bits, ip = .v6 (Address.mapped bits) ∧ ip.canonical = .v4 bits) ∨
        (∀ bits, ip ≠ .v6 (Address.mapped bits)) ∧ ip.canonical = ip) ∧
      ∀ b c : Cidr,
        (∀ ip, b.contains ip = true → c.contains ip = true → b.length ≤ c.length →
          c.Within b ∧ (b.length = c.length → b = c)) ∧
        (b.Within c ∨ c.Within b ∨ ∀ ip, ¬ (b.contains ip = true ∧ c.contains ip = true)) := by
  refine ⟨?_, fun c hc => ⟨?_, fun ip => ⟨fun hfamily => ?_, contains_iff_of_new hc⟩⟩,
    Address.canonical_cases, fun b c =>
      ⟨fun ip hb hc hlength => ⟨within_of_contains hb hc hlength, eq_of_contains hb hc⟩,
        within_or_disjoint b c⟩⟩
  · apply (new_cases a n).imp_right
    rintro ⟨hn, c, hc, -⟩
    exact ⟨hn, c, hc⟩
  · obtain ⟨hn, hnetwork, -⟩ := of_new hc
    rw [hnetwork]
    exact Address.keep?_eq hn
  · obtain ⟨hn, -⟩ := of_new hc
    exact Address.keep?_eq (Address.width_eq_of_sameFamily hfamily ▸ hn)

end Cidr
end FleetBoot
