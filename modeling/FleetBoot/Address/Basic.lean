/-! Internet addresses of both families, their parts, and the first bits that blocks keep. -/
namespace FleetBoot

inductive Address where
  | v4 (bits : BitVec 32)
  | v6 (bits : BitVec 128)
  deriving DecidableEq

namespace Address

def width : Address → Nat
  | .v4 _ => 32
  | .v6 _ => 128

/-- The four parts of an address of 32 bits, first part first. -/
def octets (bits : BitVec 32) : List Nat :=
  [24, 16, 8, 0].map fun k => (bits >>> k).toNat % 0x100

/-- The eight parts of an address of 128 bits, first part first. -/
def groups (bits : BitVec 128) : List Nat :=
  [112, 96, 80, 64, 48, 32, 16, 0].map fun k => (bits >>> k).toNat % 0x10000

def ofOctets (parts : List Nat) : BitVec 32 :=
  BitVec.ofNat 32 (parts.foldl (fun n p => n * 0x100 + p) 0)

def ofGroups (parts : List Nat) : BitVec 128 :=
  BitVec.ofNat 128 (parts.foldl (fun n p => n * 0x10000 + p) 0)

/-- The address of 32 bits that `bits` wraps, if the first 96 bits are those of wrapped
addresses. -/
def mapped? (bits : BitVec 128) : Option (BitVec 32) :=
  if bits >>> 32 = 0xFFFF#128 then some (bits.setWidth 32) else none

/-- The address itself, or the shorter one that it wraps. -/
def canonical : Address → Address
  | .v4 bits => .v4 bits
  | .v6 bits => match mapped? bits with
    | some short => .v4 short
    | none => .v6 bits

/-- The first `length` bits of `bits`, and zeros after them. -/
def keepBits {w : Nat} (bits : BitVec w) (length : Nat) : BitVec w :=
  if length = 0 then 0#w else bits &&& (BitVec.allOnes w <<< (w - length))

def keep (length : Nat) : Address → Address
  | .v4 bits => .v4 (keepBits bits length)
  | .v6 bits => .v6 (keepBits bits length)

def sameFamily : Address → Address → Bool
  | .v4 _, .v4 _ => true
  | .v6 _, .v6 _ => true
  | _, _ => false

theorem keepBits_getLsbD {w : Nat} (bits : BitVec w) (length i : Nat) :
    (keepBits bits length).getLsbD i = (decide (w - length ≤ i) && bits.getLsbD i) := by
  unfold keepBits
  split
  · next h0 =>
    by_cases hi : w ≤ i
    · simp [BitVec.getLsbD_of_ge _ _ hi]
    · simp [h0, hi]
  · by_cases hi : i < w
    · by_cases hk : w - length ≤ i
      · simp [hi, hk, Nat.not_lt.2 hk]
      · simp [hi, hk, Nat.lt_of_not_le hk]
    · simp [BitVec.getLsbD_of_ge _ _ (Nat.le_of_not_lt hi)]

theorem keepBits_keepBits {w : Nat} (bits : BitVec w) (length : Nat) :
    keepBits (keepBits bits length) length = keepBits bits length := by
  apply BitVec.eq_of_getLsbD_eq
  intro i _
  simp only [keepBits_getLsbD]
  cases decide (w - length ≤ i) <;> simp

@[simp] theorem width_keep (length : Nat) (a : Address) : (a.keep length).width = a.width := by
  cases a <;> rfl

theorem keep_keep (length : Nat) (a : Address) :
    (a.keep length).keep length = a.keep length := by
  cases a <;> simp [keep, keepBits_keepBits]

end Address
end FleetBoot
