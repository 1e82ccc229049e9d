import FleetBoot.Proofs.Address.Prefix

/-! The spellings of a block. An address that can be read, a length in digits behind a slash if there
is one, with a plus sign or zeros before the digits or not, and blanks around all of it: these are
all texts that name a block, and the block is that of the first bits of the address. -/
namespace FleetBoot

namespace Address
variable {n : Nat} {c : Char} {p r s t : List Char}

/-- A sign that addresses are written with. -/
def IsSign (c : Char) : Prop := c = '.' ∨ c = ':' ∨ Text.isHexDigit c = true

theorem IsSign.not_blank (h : IsSign c) : Text.isBlank c = false := by
  rcases h with rfl | rfl | hhex
  · decide
  · decide
  · exact Text.not_blank_of_isHexDigit hhex

theorem IsSign.ne_slash (h : IsSign c) : c ≠ '/' := by
  rintro rfl
  revert h
  unfold IsSign
  decide

/-- Between the texts there are only signs of addresses. -/
def Takes (s r : List Char) : Prop := ∃ p, s = p ++ r ∧ ∀ c ∈ p, IsSign c

theorem Takes.refl (s : List Char) : Takes s s := ⟨[], rfl, nofun⟩

theorem Takes.trans (hst : Takes s t) (htr : Takes t r) : Takes s r := by
  obtain ⟨p, rfl, hp⟩ := hst
  obtain ⟨q, rfl, hq⟩ := htr
  exact ⟨p ++ q, (List.append_assoc p q r).symm, List.forall_mem_append.mpr ⟨hp, hq⟩⟩

theorem takes_cons (h : IsSign c) (s : List Char) : Takes (c :: s) s :=
  ⟨[c], rfl, List.forall_mem_singleton.mpr h⟩

theorem Takes.all (h : Takes s []) : ∀ c ∈ s, IsSign c := by
  obtain ⟨p, rfl, hp⟩ := h
  rwa [List.append_nil]

theorem takes_spanDigits {digit? : Char → Option Nat} {ds : List Nat}
    (hdigit : ∀ c, (digit? c).isSome = true → IsSign c) (h : spanDigits digit? s = (ds, r)) :
    Takes s r := by
  induction s generalizing ds with
  | nil =>
    obtain ⟨-, rfl⟩ := Prod.mk.inj h
    exact .refl []
  | cons c s ih =>
    rw [spanDigits] at h
    split at h
    · next d hd =>
      obtain ⟨-, rfl⟩ := Prod.mk.inj h
      exact (takes_cons (hdigit c (by rw [hd]; rfl)) s).trans (ih rfl)
    · obtain ⟨-, rfl⟩ := Prod.mk.inj h
      exact .refl (c :: s)

theorem takes_octet? (h : octet? s = some (n, r)) : Takes s r := by
  have hdigit : ∀ c, (Text.digit? c).isSome = true → IsSign c := fun c hc =>
    .inr (.inr (Text.isHexDigit_of_isDigit hc))
  unfold octet? at h
  split at h
  · cases h
  · cases h
  · next hspan =>
    split at h
    · obtain ⟨-, rfl⟩ := Prod.mk.inj (Option.some.inj h)
      exact takes_spanDigits hdigit hspan
    · cases h

theorem takes_group? (h : group? s = some (n, r)) : Takes s r := by
  unfold group? at h
  split at h
  · cases h
  · next hspan =>
    split at h
    · obtain ⟨-, rfl⟩ := Prod.mk.inj (Option.some.inj h)
      exact takes_spanDigits (fun c hc => .inr (.inr hc)) hspan
    · cases h

theorem takes_separated? {sep : Char} {first : Bool} (hsep : IsSign sep)
    (h : separated? sep first s = some r) : Takes s r := by
  unfold separated? at h
  split at h
  · obtain rfl := Option.some.inj h
    exact .refl s
  · split at h
    · cases h
    · next c rest =>
      split at h
      · next hc =>
        obtain rfl := Option.some.inj h
        exact takes_cons (hc ▸ hsep) rest
      · cases h

theorem takes_octets? {first : Bool} {ps : List Nat} (h : octets? n first s = some (ps, r)) :
    Takes s r := by
  induction n generalizing first s ps with
  | zero =>
    obtain ⟨-, rfl⟩ := Prod.mk.inj (Option.some.inj h)
    exact .refl s
  | succ n ih =>
    simp only [octets?, Option.bind_eq_bind, Option.bind_eq_some_iff] at h
    obtain ⟨t, ht, ⟨p, u⟩, hu, ⟨qs, v⟩, hv, hparts⟩ := h
    obtain ⟨-, rfl⟩ := Prod.mk.inj (Option.some.inj hparts)
    exact ((takes_separated? (.inl rfl) ht).trans (takes_octet? hu)).trans (ih hv)

theorem takes_readGroups (n : Nat) (first : Bool) (s : List Char) :
    Takes s (readGroups n first s).2.2 := by
  induction n generalizing first s with
  | zero => exact .refl s
  | succ n ih =>
    have hcolon : IsSign ':' := .inr (.inl rfl)
    rw [readGroups]
    split
    · next ps r hshort =>
      split at hshort
      · cases hshort
      · obtain ⟨t, ht, hoctets⟩ := Option.bind_eq_some_iff.mp hshort
        exact (takes_separated? hcolon ht).trans (takes_octets? hoctets)
    · split
      · exact .refl s
      · next g r hgroup =>
        obtain ⟨t, ht, hgroup⟩ := Option.bind_eq_some_iff.mp hgroup
        exact ((takes_separated? hcolon ht).trans (takes_group? hgroup)).trans (ih false r)

theorem takes_long? {bits : BitVec 128} (h : long? s = some bits) : Takes s [] := by
  have hhead := takes_readGroups 8 true s
  have hcolon (r : List Char) : Takes (':' :: r) r := takes_cons (.inr (.inl rfl)) r
  unfold long? at h
  split at h
  next head short r hread =>
    rw [hread] at hhead
    split at h
    · split at h
      · next hnil => exact List.isEmpty_iff.mp hnil ▸ hhead
      · cases h
    · split at h
      · cases h
      · split at h
        · next t =>
          have htail := takes_readGroups (7 - head.length) true t
          split at h
          next tail mixed rest hrest =>
            rw [hrest] at htail
            split at h
            · next hnil =>
              -- the groups before the two colons, the colons, and the groups after them
              have htail : Takes t [] := List.isEmpty_iff.mp hnil ▸ htail
              exact ((hhead.trans (hcolon _)).trans (hcolon t)).trans htail
            · cases h
        · cases h

/-- A text that is read as an address has no other signs than addresses have. -/
theorem isSign_of_mem {a : Address} (h : ofChars? s = some a) : ∀ c ∈ s, IsSign c := by
  apply Takes.all
  unfold ofChars? at h
  split at h
  · next bits hshort =>
    unfold short? at hshort
    split at hshort
    · next hread => exact takes_octets? hread
    · cases hshort
  · obtain ⟨bits, hlong, -⟩ := Option.map_eq_some_iff.mp h
    exact takes_long? hlong

theorem not_slash_of_ofChars? {a : Address} (h : ofChars? s = some a) : '/' ∉ s :=
  fun hmem => (isSign_of_mem h '/' hmem).ne_slash rfl

end Address

namespace Cidr
variable {a : Address} {n : Nat} {c : Cidr} {s : List Char}

/-- A length with a plus sign or not, and with zeros before its digits or not. -/
def lengthChars (plus : Bool) (zeros n : Nat) : List Char :=
  (if plus then ['+'] else []) ++ (List.replicate zeros '0' ++ Text.decimal n)

/-- The text spells an address and how many of its bits the block keeps. Without a length it keeps
them all. -/
inductive Spells : List Char → Address → Nat → Prop where
  | alone {s : List Char} {a : Address} (read : Address.ofChars? s = some a) : Spells s a a.width
  | long {s : List Char} {a : Address} (read : Address.ofChars? s = some a) (plus : Bool)
      (zeros n : Nat) : Spells (s ++ '/' :: lengthChars plus zeros n) a n

theorem not_blank_of_mem_lengthChars {plus : Bool} {zeros : Nat} {d : Char}
    (h : d ∈ lengthChars plus zeros n) : Text.isBlank d = false := by
  rcases List.mem_append.mp h with h | h
  · cases plus with
    | true => exact List.mem_singleton.mp h ▸ by decide
    | false => cases h
  · rcases List.mem_append.mp h with h | h
    · exact List.eq_of_mem_replicate h ▸ by decide
    · exact Text.not_blank_of_isHexDigit (Text.isHexDigit_of_isDigit (Text.isDigit_of_mem_decimal h))

/-- A length without a plus sign has none. -/
theorem not_plus_of_numeral (zeros n : Nat) : '+' ∉ lengthChars false zeros n := by
  intro h
  rcases List.mem_append.mp h with h | h
  · cases h
  · rcases List.mem_append.mp h with h | h
    · exact absurd (List.eq_of_mem_replicate h) (by decide)
    · exact absurd (Text.isDigit_of_mem_decimal h) (by decide)

theorem Spells.not_blank (h : Spells s a n) : ∀ d ∈ s, Text.isBlank d = false := by
  cases h with
  | alone read => exact fun d hd => (Address.isSign_of_mem read d hd).not_blank
  | long read plus zeros n =>
    refine List.forall_mem_append.mpr ⟨fun d hd => (Address.isSign_of_mem read d hd).not_blank, ?_⟩
    exact List.forall_mem_cons.mpr ⟨by decide, fun d hd => not_blank_of_mem_lengthChars hd⟩

/-- The digits of a length behind its plus sign, if it has one. -/
def lengthDigits : List Char → List Char
  | '+' :: s => s
  | s => s

theorem decimal?_lengthDigits :
    Text.decimal? (lengthDigits s) = some n ↔ ∃ plus zeros, s = lengthChars plus zeros n := by
  rw [Text.decimal?_eq_some_iff]
  unfold lengthDigits
  split
  · next s =>
    constructor
    · rintro ⟨zeros, rfl⟩
      exact ⟨true, zeros, rfl⟩
    · rintro ⟨plus, zeros, h⟩
      cases plus with
      | true => exact ⟨zeros, (List.cons.inj h).2⟩
      | false => exact absurd (h ▸ List.mem_cons_self) (not_plus_of_numeral zeros n)
  · next hplus =>
    constructor
    · rintro ⟨zeros, rfl⟩
      exact ⟨false, zeros, rfl⟩
    · rintro ⟨plus, zeros, rfl⟩
      cases plus with
      | true => exact absurd rfl (hplus _)
      | false => exact ⟨zeros, rfl⟩

theorem length?_eq (s : List Char) :
    length? s = (Text.decimal? (lengthDigits s)).bind fun n => if n < 0x100 then some n else none := by
  unfold length? lengthDigits
  cases Text.decimal? _ <;> rfl

theorem length?_eq_some_iff :
    length? s = some n ↔ n < 0x100 ∧ ∃ plus zeros, s = lengthChars plus zeros n := by
  rw [length?_eq, Option.bind_eq_some_iff, ← decimal?_lengthDigits]
  constructor
  · rintro ⟨m, hm, hn⟩
    split at hn
    · next hlt =>
      obtain rfl := Option.some.inj hn
      exact ⟨hlt, hm⟩
    · cases hn
  · rintro ⟨hlt, hn⟩
    exact ⟨n, hn, if_pos hlt⟩

theorem ofAddress?_eq_some_iff : ofAddress? a n = some c ↔ new a n = .ok c := by
  unfold new
  cases ofAddress? a n <;> simp

/-- The texts without blanks around them that name the block. -/
theorem ofChars?_eq_some_iff : ofChars? s = some c ↔ ∃ a n, Spells s a n ∧ new a n = .ok c := by
  constructor
  · intro h
    unfold ofChars? at h
    split at h
    · next t u hcut =>
      simp only [Option.bind_eq_bind, Option.bind_eq_some_iff] at h
      obtain ⟨a, ha, n, hn, hc⟩ := h
      obtain ⟨-, plus, zeros, rfl⟩ := length?_eq_some_iff.mp hn
      have hs : s = t ++ '/' :: lengthChars plus zeros n := by
        rw [Text.eq_of_cutAt? hcut, List.append_assoc, List.singleton_append]
      exact ⟨a, n, hs ▸ .long ha plus zeros n, ofAddress?_eq_some_iff.mp hc⟩
    · simp only [Option.bind_eq_bind, Option.bind_eq_some_iff] at h
      obtain ⟨a, ha, hc⟩ := h
      exact ⟨a, a.width, .alone ha, ofAddress?_eq_some_iff.mp hc⟩
  · rintro ⟨a, n, hspells, hc⟩
    have hblock := ofAddress?_eq_some_iff.mpr hc
    cases hspells with
    | alone read =>
      rw [ofChars?, Text.cutAtChar?_of_not_mem (Address.not_slash_of_ofChars? read)]
      simp only [read, Option.bind_eq_bind, Option.bind_some, hblock]
    | long read plus zeros n =>
      have hlength : length? (lengthChars plus zeros n) = some n :=
        length?_eq_some_iff.mpr ⟨(of_new hc).1.trans_lt a.width_lt, plus, zeros, rfl⟩
      rw [ofChars?, Text.cutAtChar?_append (Address.not_slash_of_ofChars? read)]
      simp only [read, hlength, Option.bind_eq_bind, Option.bind_some, hblock]

theorem parse_eq_ok_iff_parse? {text : String} : parse text = .ok c ↔ parse? text = some c := by
  unfold parse
  cases parse? text <;> simp

/-- The texts that name the block. -/
theorem parse_eq_ok_iff {text : String} : parse text = .ok c ↔
    ∃ before s after a n, text.toList = before ++ s ++ after ∧
      (∀ d ∈ before, Text.isBlank d = true) ∧ (∀ d ∈ after, Text.isBlank d = true) ∧
      Spells s a n ∧ new a n = .ok c := by
  rw [parse_eq_ok_iff_parse?, parse?, ofChars?_eq_some_iff]
  constructor
  · rintro ⟨a, n, hspells, hc⟩
    obtain ⟨before, after, hsplit, hbefore, hafter⟩ := Text.exists_trimChars text.toList
    exact ⟨before, _, after, a, n, hsplit, hbefore, hafter, hspells, hc⟩
  · rintro ⟨before, s, after, a, n, hsplit, hbefore, hafter, hspells, hc⟩
    rw [hsplit, Text.trimChars_padded hbefore hafter, Text.trimChars_eq_self hspells.not_blank]
    exact ⟨a, n, hspells, hc⟩

end Cidr
end FleetBoot
