/-! UTF-8: the bytes of a text, and reading bytes strictly or with replacements. -/
namespace FleetBoot.Text

def utf8Bytes (c : Char) : List UInt8 :=
  let n := c.toNat
  let tail (k : Nat) : UInt8 := UInt8.ofNat (0x80 + n / Nat.pow 2 k % 0x40)
  if n < 0x80 then [UInt8.ofNat n]
  else if n < 0x800 then [UInt8.ofNat (0xC0 + n / 0x40), tail 0]
  else if n < 0x10000 then [UInt8.ofNat (0xE0 + n / 0x1000), tail 6, tail 0]
  else [UInt8.ofNat (0xF0 + n / 0x40000), tail 12, tail 6, tail 0]

def utf8Encode (s : List Char) : List UInt8 := s.flatMap utf8Bytes

/-- How a sequence goes on after its first byte: the bits that byte gives, the bounds of the second
byte, and how many bytes follow the second. -/
structure Utf8Lead where
  bits : Nat
  low : Nat
  high : Nat
  more : Nat

/-- The first bytes of sequences of two to four bytes. The bounds leave out overlong forms,
surrogates and what lies above U+10FFFF. -/
def Utf8Lead.ofByte? (b : UInt8) : Option Utf8Lead :=
  let n := b.toNat
  if 0xC2 ≤ n ∧ n ≤ 0xDF then some ⟨n - 0xC0, 0x80, 0xBF, 0⟩
  else if n = 0xE0 then some ⟨0, 0xA0, 0xBF, 1⟩
  else if n = 0xED then some ⟨0xD, 0x80, 0x9F, 1⟩
  else if 0xE1 ≤ n ∧ n ≤ 0xEF then some ⟨n - 0xE0, 0x80, 0xBF, 1⟩
  else if n = 0xF0 then some ⟨0, 0x90, 0xBF, 2⟩
  else if 0xF1 ≤ n ∧ n ≤ 0xF3 then some ⟨n - 0xF0, 0x80, 0xBF, 2⟩
  else if n = 0xF4 then some ⟨4, 0x80, 0x8F, 2⟩
  else none

/-- Reads the `more` last bytes of a sequence. The rest is what follows the sequence, or what
follows its longest part that could have gone on to be one. -/
def utf8Tail (bits : Nat) : Nat → List UInt8 → Option Char × List UInt8
  | 0, bs => (some (Char.ofNat bits), bs)
  | _ + 1, [] => (none, [])
  | more + 1, b :: bs =>
      if 0x80 ≤ b.toNat ∧ b.toNat ≤ 0xBF then utf8Tail (bits * 0x40 + (b.toNat - 0x80)) more bs
      else (none, b :: bs)

/-- Reads one character or one part that is none. -/
def utf8Next (b : UInt8) (bs : List UInt8) : Option Char × List UInt8 :=
  if b.toNat < 0x80 then (some (Char.ofNat b.toNat), bs)
  else match Utf8Lead.ofByte? b, bs with
    | some lead, c :: bs' =>
        if lead.low ≤ c.toNat ∧ c.toNat ≤ lead.high then
          utf8Tail (lead.bits * 0x40 + (c.toNat - 0x80)) lead.more bs'
        else (none, bs)
    | _, _ => (none, bs)

theorem utf8Tail_length (bits more : Nat) (bs : List UInt8) :
    (utf8Tail bits more bs).2.length ≤ bs.length := by
  induction more generalizing bits bs with
  | zero => simp [utf8Tail]
  | succ more ih =>
    cases bs with
    | nil => simp [utf8Tail]
    | cons b bs =>
      simp only [utf8Tail]
      split
      · exact Nat.le_trans (ih _ _) (by simp)
      · simp

theorem utf8Next_length (b : UInt8) (bs : List UInt8) :
    (utf8Next b bs).2.length ≤ bs.length := by
  unfold utf8Next
  split
  · simp
  · split
    · split
      · exact Nat.le_trans (utf8Tail_length _ _ _) (by simp)
      · simp
    · simp

/-- The characters of a byte string, `none` for each part that is not UTF-8. -/
def utf8Parts : List UInt8 → List (Option Char)
  | [] => []
  | b :: bs => (utf8Next b bs).1 :: utf8Parts (utf8Next b bs).2
termination_by bs => bs.length
decreasing_by exact Nat.lt_succ_of_le (utf8Next_length b bs)

/-- The text of a byte string that is UTF-8 throughout. -/
def utf8Decode? (bs : List UInt8) : Option (List Char) := (utf8Parts bs).mapM id

/-- The text of any byte string, with U+FFFD for each part that is not UTF-8. -/
def utf8Lossy (bs : List UInt8) : List Char :=
  (utf8Parts bs).map (·.getD (Char.ofNat 0xFFFD))

end FleetBoot.Text
