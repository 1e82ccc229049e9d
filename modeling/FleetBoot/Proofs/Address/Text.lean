import FleetBoot.Address.Parser
import FleetBoot.Address.Printer
import FleetBoot.Proofs.Text.Numeral

/-! The text of an address is read back as the address, whichever zeros the text leaves out. -/
namespace FleetBoot

namespace Text

theorem isDigit_of_mem_decimal {n : Nat} {c : Char} (h : c ∈ decimal n) : isDigit c = true := by
  rw [decimal, numeral_eq_places (by decide)] at h
  obtain ⟨d, hd, rfl⟩ := List.mem_map.mp h
  rw [isDigit, digit?_digitChar d (lt_of_mem_places (by decide) hd)]
  rfl

theorem isHexDigit_of_isDigit {c : Char} (h : isDigit c = true) : isHexDigit c = true := by
  unfold isDigit digit? at h
  unfold isHexDigit hexDigit?
  split at h
  · next hc => rw [if_pos hc]; rfl
  · cases h

theorem isHexDigit_of_mem_hexadecimal {n : Nat} {c : Char} (h : c ∈ hexadecimal n) :
    isHexDigit c = true := by
  rw [hexadecimal, numeral_eq_places (by decide)] at h
  obtain ⟨d, hd, rfl⟩ := List.mem_map.mp h
  rw [isHexDigit, hexDigit?_digitChar d (lt_of_mem_places (by decide) hd)]
  rfl

end Text

namespace Address
variable {n : Nat} {r s : List Char} {ps gs : List Nat}

theorem spanDigits_append {digit? : Char → Option Nat} {ds : List Nat}
    (h : ∀ d ∈ ds, digit? (Text.digitChar d) = some d) (hr : ∀ c ∈ r.head?, digit? c = none) :
    spanDigits digit? (ds.map Text.digitChar ++ r) = (ds, r) := by
  induction ds with
  | nil =>
    cases r with
    | nil => rfl
    | cons c r =>
      rw [List.map_nil, List.nil_append, spanDigits, hr c rfl]
  | cons d ds ih =>
    rw [List.map_cons, List.cons_append, spanDigits, h d List.mem_cons_self]
    simp only [ih fun e he => h e (List.mem_cons_of_mem d he)]

theorem spanDigits_decimal (hr : ∀ c ∈ r.head?, Text.digit? c = none) :
    spanDigits Text.digit? (Text.decimal n ++ r) = (Text.places 10 n, r) := by
  rw [Text.decimal, Text.numeral_eq_places (by decide)]
  exact spanDigits_append
    (fun d hd => Text.digit?_digitChar d (Text.lt_of_mem_places (by decide) hd)) hr

theorem octet?_decimal (h : n < 0x100) (hr : ∀ c ∈ r.head?, Text.digit? c = none) :
    octet? (Text.decimal n ++ r) = some (n, r) := by
  have hlength : (Text.places 10 n).length ≤ 3 :=
    Text.length_places_le (by decide) (by decide) (by omega)
  rw [octet?, spanDigits_decimal hr]
  split
  · next hnil => exact absurd (Prod.mk.inj hnil).1 (Text.places_ne_nil 10 n)
  · next hzero => exact absurd (Text.eq_nil_of_places (Prod.mk.inj hzero).1) (List.cons_ne_nil _ _)
  · next heq =>
    cases heq
    rw [Text.valueOf_places, if_pos ⟨hlength, h⟩]

theorem group?_hexadecimal (h : n < 0x10000) (hr : ∀ c ∈ r.head?, Text.hexDigit? c = none) :
    group? (Text.hexadecimal n ++ r) = some (n, r) := by
  have hspan : spanDigits Text.hexDigit? (Text.hexadecimal n ++ r) = (Text.places 16 n, r) := by
    rw [Text.hexadecimal, Text.numeral_eq_places (by decide)]
    exact spanDigits_append
      (fun d hd => Text.hexDigit?_digitChar d (Text.lt_of_mem_places (by decide) hd)) hr
  have hlength : (Text.places 16 n).length ≤ 4 :=
    Text.length_places_le (by decide) (by decide) (by omega)
  rw [group?, hspan]
  split
  · next hnil => exact absurd (Prod.mk.inj hnil).1 (Text.places_ne_nil 16 n)
  · next heq =>
    cases heq
    rw [Text.valueOf_places, if_pos hlength]

theorem joined_cons (sep : Char) (p : List Char) (ps : List (List Char)) :
    joined sep (p :: ps) = p ++ ps.flatMap fun q => sep :: q := by
  induction ps generalizing p with
  | nil => simp [joined]
  | cons q ps ih => rw [joined, ih, List.flatMap_cons, List.cons_append]

@[simp] theorem separated?_first (sep : Char) (s : List Char) :
    separated? sep true s = some s := rfl

@[simp] theorem separated?_cons (sep : Char) (s : List Char) :
    separated? sep false (sep :: s) = some s := by simp [separated?]

/-! ### Octets -/

theorem head?_dotted (hr : ∀ c ∈ r.head?, Text.digit? c = none) (ps : List Nat) :
    ∀ c ∈ (((ps.map Text.decimal).flatMap fun q => '.' :: q) ++ r).head?, Text.digit? c = none := by
  cases ps with
  | nil => exact hr
  | cons p ps =>
    rintro c ⟨⟩
    decide

theorem octets?_dotted (h : ∀ p ∈ ps, p < 0x100) (hr : ∀ c ∈ r.head?, Text.digit? c = none) :
    octets? ps.length false (((ps.map Text.decimal).flatMap fun q => '.' :: q) ++ r) =
      some (ps, r) := by
  induction ps with
  | nil => rfl
  | cons p ps ih =>
    have hrest := ih fun q hq => h q (List.mem_cons_of_mem p hq)
    have hoctet := octet?_decimal (h p List.mem_cons_self) (head?_dotted hr ps)
    rw [List.length_cons, octets?, List.map_cons, List.flatMap_cons, List.append_assoc,
      List.cons_append, separated?_cons]
    simp only [Option.bind_eq_bind, Option.bind_some, hoctet, hrest]
    rfl

theorem octets?_octetChars (bits : BitVec 32) (hr : ∀ c ∈ r.head?, Text.digit? c = none) :
    octets? 4 true (octetChars bits ++ r) = some (octets bits, r) := by
  obtain ⟨a, b, c, d, hparts⟩ : ∃ a b c d, octets bits = [a, b, c, d] := ⟨_, _, _, _, rfl⟩
  have hsmall : ∀ p ∈ octets bits, p < 0x100 := by
    intro p hp
    obtain ⟨k, -, rfl⟩ := List.mem_map.mp hp
    exact Nat.mod_lt _ (by decide)
  rw [hparts] at hsmall
  have hlast : ∀ p ∈ [b, c, d], p < 0x100 := fun p hp => hsmall p (List.mem_cons_of_mem a hp)
  have hrest : octets? 3 false _ = some ([b, c, d], r) := octets?_dotted hlast hr
  have hoctet := octet?_decimal (hsmall a List.mem_cons_self) (head?_dotted hr [b, c, d])
  rw [octetChars, hparts, List.map_cons, joined_cons, List.append_assoc, octets?,
    separated?_first]
  simp only [Option.bind_eq_bind, Option.bind_some, hoctet, hrest]
  rfl

theorem toNat_shiftRight {w : Nat} (bits : BitVec w) (k : Nat) :
    (bits >>> k).toNat = bits.toNat / 2 ^ k := by
  rw [BitVec.toNat_ushiftRight, Nat.shiftRight_eq_div_pow]

theorem ofOctets_octets (bits : BitVec 32) : ofOctets (octets bits) = bits := by
  apply BitVec.eq_of_toNat_eq
  have hlt := bits.isLt
  simp only [ofOctets, octets, List.map_cons, List.map_nil, List.foldl_cons, List.foldl_nil,
    toNat_shiftRight, BitVec.toNat_ofNat]
  omega

theorem short?_octetChars (bits : BitVec 32) : short? (octetChars bits) = some bits := by
  have hread := octets?_octetChars bits (r := []) nofun
  rw [List.append_nil] at hread
  rw [short?, hread]
  simp only [ofOctets_octets]

/-! ### Texts without dots are not read as octets -/

theorem mem_of_mem_spanDigits {digit? : Char → Option Nat} {c : Char}
    (h : c ∈ (spanDigits digit? s).2) : c ∈ s := by
  induction s with
  | nil => exact h
  | cons d s ih =>
    rw [spanDigits] at h
    split at h
    · exact List.mem_cons_of_mem d (ih h)
    · exact h

theorem mem_of_mem_octet? {p : Nat} {c : Char} (h : octet? s = some (p, r)) (hc : c ∈ r) :
    c ∈ s := by
  have hrest : (spanDigits Text.digit? s).2 = r := by
    unfold octet? at h
    split at h
    · cases h
    · cases h
    · next hspan =>
      split at h
      · cases h
        rw [hspan]
      · cases h
  exact mem_of_mem_spanDigits (hrest ▸ hc)

theorem octets?_of_not_mem (h : '.' ∉ s) : octets? 4 true s = none := by
  rw [octets?, separated?_first, Option.bind_eq_bind, Option.bind_some]
  cases hoctet : octet? s with
  | none => rfl
  | some pr =>
    obtain ⟨p, r⟩ := pr
    have hr : separated? '.' false r = none := by
      cases r with
      | nil => rfl
      | cons c r =>
        have hc : c ≠ '.' := by
          rintro rfl
          exact h (mem_of_mem_octet? hoctet List.mem_cons_self)
        simp [separated?, hc]
    simp only [Option.bind_eq_bind, Option.bind_some]
    rw [octets?, hr]
    rfl

/-! ### Groups -/

/-- What may follow groups in a text: nothing, or the two colons that leave out zeros. -/
def Breaks (r : List Char) : Prop := r = [] ∨ ∃ s, r = ':' :: ':' :: s

theorem Breaks.head? (h : Breaks r) : ∀ c ∈ r.head?, Text.hexDigit? c = none := by
  rcases h with rfl | ⟨s, rfl⟩
  · exact nofun
  · rintro c ⟨⟩
    decide

theorem Breaks.separated? (h : Breaks r) (first : Bool) :
    (Address.separated? ':' first r).bind group? = none := by
  rcases h with rfl | ⟨s, rfl⟩
  · cases first <;> rfl
  · cases first <;> rfl

theorem readGroups_of_breaks (h : Breaks r) (hdot : '.' ∉ r) (n : Nat) (first : Bool) :
    readGroups n first r = ([], false, r) := by
  cases n with
  | zero => rfl
  | succ n =>
    have hshort : (separated? ':' first r).bind (octets? 4 true) = none := by
      cases hs : separated? ':' first r with
      | none => rfl
      | some s =>
        refine octets?_of_not_mem fun hmem => hdot ?_
        rcases h with rfl | ⟨t, rfl⟩
        · cases first <;> cases hs
          exact hmem
        · cases first <;> cases hs
          · exact List.mem_cons_of_mem _ hmem
          · exact hmem
    rw [readGroups]
    simp only [hshort, ite_self, h.separated? first]

theorem readGroups_group {first short : Bool} {g : Nat} {t u : List Char}
    (hs : separated? ':' first s = some t) (ht : octets? 4 true t = none)
    (hg : group? t = some (g, r))
    (hrest : readGroups n false r = (gs, short, u)) :
    readGroups (n + 1) first s = (g :: gs, short, u) := by
  have hshort : (separated? ':' first s).bind (octets? 4 true) = none := by
    rw [hs, Option.bind_some, ht]
  have hgroup : (separated? ':' first s).bind group? = some (g, r) := by
    rw [hs, Option.bind_some, hg]
  rw [readGroups]
  simp only [hshort, ite_self, hgroup, hrest]

/-- Groups after the first, each with its colon. -/
def laterChars (gs : List Nat) : List Char := (gs.map Text.hexadecimal).flatMap fun q => ':' :: q

theorem laterChars_cons (g : Nat) (gs : List Nat) :
    laterChars (g :: gs) = ':' :: (Text.hexadecimal g ++ laterChars gs) := rfl

theorem groupChars_cons (g : Nat) (gs : List Nat) :
    groupChars (g :: gs) = Text.hexadecimal g ++ laterChars gs := joined_cons ':' _ _

theorem mem_laterChars {c : Char} (h : c ∈ laterChars gs) :
    c = ':' ∨ Text.isHexDigit c = true := by
  obtain ⟨q, hq, hc⟩ := List.mem_flatMap.mp h
  obtain ⟨g, -, rfl⟩ := List.mem_map.mp hq
  exact (List.mem_cons.mp hc).imp_right Text.isHexDigit_of_mem_hexadecimal

theorem mem_groupChars {c : Char} (h : c ∈ groupChars gs) :
    c = ':' ∨ Text.isHexDigit c = true := by
  cases gs with
  | nil => cases h
  | cons g gs =>
    rw [groupChars_cons] at h
    rcases List.mem_append.mp h with h | h
    · exact .inr (Text.isHexDigit_of_mem_hexadecimal h)
    · exact mem_laterChars h

theorem not_dot_of_mem_groups {p : List Char} (h : ∀ c ∈ p, c = ':' ∨ Text.isHexDigit c = true)
    (hdot : '.' ∉ r) : '.' ∉ p ++ r := by
  intro hmem
  rcases List.mem_append.mp hmem with hmem | hmem
  · exact absurd (h '.' hmem) (by decide)
  · exact hdot hmem

theorem not_dot_of_mem_groupChars (gs : List Nat) : '.' ∉ groupChars gs :=
  fun h => absurd (mem_groupChars h) (by decide)

theorem head?_laterChars (hr : Breaks r) (gs : List Nat) :
    ∀ c ∈ (laterChars gs ++ r).head?, Text.hexDigit? c = none := by
  cases gs with
  | nil => exact hr.head?
  | cons g gs =>
    rintro c ⟨⟩
    decide

theorem readGroups_laterChars (h : ∀ g ∈ gs, g < 0x10000) (hr : Breaks r) (hdot : '.' ∉ r)
    (hn : gs.length ≤ n) : readGroups n false (laterChars gs ++ r) = (gs, false, r) := by
  induction gs generalizing n with
  | nil => exact readGroups_of_breaks hr hdot n false
  | cons g gs ih =>
    obtain ⟨n, rfl⟩ : ∃ m, n = m + 1 := ⟨n - 1, by simp at hn; omega⟩
    have hrest := ih (fun q hq => h q (List.mem_cons_of_mem g hq)) (Nat.le_of_succ_le_succ hn)
    have hgroup := group?_hexadecimal (h g List.mem_cons_self) (head?_laterChars hr gs)
    rw [laterChars_cons, List.cons_append, List.append_assoc]
    refine readGroups_group (separated?_cons ':' _) (octets?_of_not_mem ?_) hgroup hrest
    rw [← List.append_assoc, ← groupChars_cons]
    exact not_dot_of_mem_groups (fun c => mem_groupChars) hdot

theorem readGroups_groupChars (h : ∀ g ∈ gs, g < 0x10000) (hr : Breaks r) (hdot : '.' ∉ r)
    (hn : gs.length ≤ n) : readGroups n true (groupChars gs ++ r) = (gs, false, r) := by
  cases gs with
  | nil => exact readGroups_of_breaks hr hdot n true
  | cons g gs =>
    obtain ⟨n, rfl⟩ : ∃ m, n = m + 1 := ⟨n - 1, by simp at hn; omega⟩
    have hrest := readGroups_laterChars (fun q hq => h q (List.mem_cons_of_mem g hq)) hr hdot
      (Nat.le_of_succ_le_succ hn)
    have hgroup := group?_hexadecimal (h g List.mem_cons_self) (head?_laterChars hr gs)
    rw [groupChars_cons, List.append_assoc]
    refine readGroups_group (separated?_first ':' _) (octets?_of_not_mem ?_) hgroup hrest
    rw [← List.append_assoc, ← groupChars_cons]
    exact not_dot_of_mem_groups (fun c => mem_groupChars) hdot

theorem ofGroups_groups (bits : BitVec 128) : ofGroups (groups bits) = bits := by
  apply BitVec.eq_of_toNat_eq
  have hlt := bits.isLt
  simp only [ofGroups, groups, List.map_cons, List.map_nil, List.foldl_cons, List.foldl_nil,
    toNat_shiftRight, BitVec.toNat_ofNat]
  omega

theorem lt_of_mem_groups {bits : BitVec 128} : ∀ g ∈ groups bits, g < 0x10000 := by
  intro g hg
  obtain ⟨k, -, rfl⟩ := List.mem_map.mp hg
  exact Nat.mod_lt _ (by decide)

/-! ### Zeros that are left out -/

theorem take_of_le_zeroRun {m : Nat} (h : m ≤ zeroRun ps) : ps.take m = List.replicate m 0 := by
  induction ps generalizing m with
  | nil =>
    obtain rfl : m = 0 := Nat.le_zero.mp h
    rfl
  | cons p ps ih =>
    cases m with
    | zero => rfl
    | succ m =>
      by_cases hp : p = 0
      · have hm : m ≤ zeroRun ps := by simpa [zeroRun, hp] using h
        rw [List.take_succ_cons, ih hm, hp, List.replicate_succ]
      · simp [zeroRun, hp] at h

theorem zeroRun_le_length (ps : List Nat) : zeroRun ps ≤ ps.length :=
  (List.takeWhile_sublist _).length_le

/-- The row of zeros that was found is there. -/
theorem longestZeros_le (parts : List Nat) :
    (longestZeros parts).2 ≤ zeroRun (parts.drop (longestZeros parts).1) := by
  have hfold (l : List Nat) (best : Nat × Nat) (h : best.2 ≤ zeroRun (parts.drop best.1)) :
      let found := l.foldl (fun best i =>
        if best.2 < zeroRun (parts.drop i) then (i, zeroRun (parts.drop i)) else best) best
      found.2 ≤ zeroRun (parts.drop found.1) := by
    induction l generalizing best with
    | nil => exact h
    | cons i l ih =>
      refine ih _ ?_
      dsimp only
      split
      · exact Nat.le_refl _
      · exact h
  exact hfold _ (0, 0) (Nat.zero_le _)

theorem long?_groupChars (bits : BitVec 128) : long? (groupChars (groups bits)) = some bits := by
  have hread : readGroups 8 true (groupChars (groups bits) ++ []) = (groups bits, false, []) :=
    readGroups_groupChars lt_of_mem_groups (.inl rfl) List.not_mem_nil (Nat.le_refl 8)
  have hlength : (groups bits).length = 8 := rfl
  rw [List.append_nil] at hread
  rw [long?, hread]
  simp only [hlength, if_true, List.isEmpty_nil, ofGroups_groups]

/-- Two colons stand for the zeros that are missing. -/
theorem long?_of_readGroups {head tail : List Nat} {short : Bool} {t : List Char}
    (hs : readGroups 8 true s = (head, false, ':' :: ':' :: t)) (hhead : head.length < 8)
    (ht : readGroups (7 - head.length) true t = (tail, short, [])) :
    long? s = some (ofGroups
      (head ++ List.replicate (8 - head.length - tail.length) 0 ++ tail)) := by
  rw [long?, hs]
  simp only [hhead.ne, if_false, Bool.false_eq_true, ht, List.isEmpty_nil, if_true]

theorem long?_zeros {bits : BitVec 128} {start length : Nat} (hlong : 1 < length)
    (hrun : length ≤ zeroRun ((groups bits).drop start)) :
    long? (groupChars ((groups bits).take start) ++ ':' :: ':' ::
      groupChars ((groups bits).drop (start + length))) = some bits := by
  have hbound : length ≤ 8 - start := by
    simpa [groups] using hrun.trans (zeroRun_le_length _)
  have hhead : ((groups bits).take start).length = start := by simp [groups]; omega
  have htail : ((groups bits).drop (start + length)).length = 8 - (start + length) := by
    simp [groups]
  have hsmall (gs : List Nat) (h : gs.Sublist (groups bits)) : ∀ g ∈ gs, g < 0x10000 :=
    fun g hg => lt_of_mem_groups g (h.subset hg)
  have hreadTail : readGroups (7 - start) true
      (groupChars ((groups bits).drop (start + length)) ++ []) =
        ((groups bits).drop (start + length), false, []) :=
    readGroups_groupChars (hsmall _ (List.drop_sublist _ _)) (.inl rfl) List.not_mem_nil
      (by omega)
  rw [List.append_nil] at hreadTail
  have hdot : '.' ∉ ':' :: ':' :: groupChars ((groups bits).drop (start + length)) := by
    simp [not_dot_of_mem_groupChars]
  have hreadHead := readGroups_groupChars (n := 8) (hsmall _ (List.take_sublist start _))
    (.inr ⟨_, rfl⟩) hdot (by omega)
  rw [long?_of_readGroups hreadHead (by omega) (by rw [hhead]; exact hreadTail), hhead, htail]
  -- the zeros that are put in are those that were left out
  have hzeros : ((groups bits).drop start).take length = List.replicate length 0 :=
    take_of_le_zeroRun hrun
  have hall : (groups bits).take start ++ List.replicate length 0 ++
      (groups bits).drop (start + length) = groups bits := by
    rw [← hzeros, ← List.drop_drop, List.append_assoc, List.take_append_drop,
      List.take_append_drop]
  rw [show 8 - start - (8 - (start + length)) = length by omega, hall, ofGroups_groups]

theorem readGroups_mapped (h : octets? 4 true s = some (ps, [])) :
    readGroups 7 true ('f' :: 'f' :: 'f' :: 'f' :: ':' :: s) = (0xFFFF :: pairUp ps, true, []) := by
  have hshort : octets? 4 true ('f' :: 'f' :: 'f' :: 'f' :: ':' :: s) = none := rfl
  have hgroup : group? ('f' :: 'f' :: 'f' :: 'f' :: ':' :: s) = some (0xFFFF, ':' :: s) := rfl
  refine readGroups_group (separated?_first ':' _) hshort hgroup ?_
  rw [readGroups, separated?_cons, Option.bind_some, h]
  rfl

theorem ofGroups_mapped {bits : BitVec 128} {short : BitVec 32} (h : mapped? bits = some short) :
    ofGroups ([0, 0, 0, 0, 0, 0xFFFF] ++ pairUp (octets short)) = bits := by
  unfold mapped? at h
  split at h
  · next hhigh =>
    cases h
    have hhigh : bits.toNat / 2 ^ 32 = 0xFFFF := by
      rw [← toNat_shiftRight, hhigh]
      rfl
    apply BitVec.eq_of_toNat_eq
    have hlt := bits.isLt
    simp only [ofGroups, octets, List.map_cons, List.map_nil, pairUp, List.cons_append,
      List.nil_append, List.foldl_cons, List.foldl_nil, toNat_shiftRight, BitVec.toNat_ofNat,
      BitVec.toNat_setWidth]
    omega
  · cases h

/-- The three forms of a text of 128 bits: with octets, with zeros left out, and in full. -/
theorem longChars_cases (bits : BitVec 128) :
    (∃ short, mapped? bits = some short ∧
      longChars bits = [':', ':', 'f', 'f', 'f', 'f', ':'] ++ octetChars short) ∨
    (∃ start length, 1 < length ∧ length ≤ zeroRun ((groups bits).drop start) ∧
      longChars bits = groupChars ((groups bits).take start) ++ ':' :: ':' ::
        groupChars ((groups bits).drop (start + length))) ∨
    longChars bits = groupChars (groups bits) := by
  rw [longChars]
  cases hmapped : mapped? bits with
  | some short => exact .inl ⟨short, rfl, rfl⟩
  | none =>
    dsimp only
    by_cases hlong : 1 < (longestZeros (groups bits)).2
    · refine .inr (.inl ⟨_, _, hlong, longestZeros_le (groups bits), ?_⟩)
      rw [if_pos hlong, List.append_assoc]
      rfl
    · exact .inr (.inr (if_neg hlong))

/-- A text of 128 bits is read back. -/
theorem long?_longChars (bits : BitVec 128) : long? (longChars bits) = some bits := by
  rcases longChars_cases bits with
    ⟨short, hshort, htext⟩ | ⟨start, length, hlong, hrun, htext⟩ | htext
  · have hread := octets?_octetChars short (r := []) nofun
    rw [List.append_nil] at hread
    have hhead : readGroups 8 true (':' :: ':' :: 'f' :: 'f' :: 'f' :: 'f' :: ':' ::
        octetChars short) = ([], false, ':' :: ':' :: 'f' :: 'f' :: 'f' :: 'f' :: ':' ::
        octetChars short) := rfl
    have hlong := long?_of_readGroups hhead (by decide) (readGroups_mapped hread)
    rw [htext]
    exact hlong.trans (congrArg some (ofGroups_mapped hshort))
  · rw [htext, long?_zeros hlong hrun]
  · rw [htext, long?_groupChars]

/-- A text of 128 bits is no text of 32. -/
theorem short?_longChars (bits : BitVec 128) : short? (longChars bits) = none := by
  rcases longChars_cases bits with ⟨short, -, htext⟩ | ⟨start, length, -, -, htext⟩ | htext
  · rw [htext]
    rfl
  · rw [htext, short?, octets?_of_not_mem (by simp [not_dot_of_mem_groupChars])]
  · rw [htext, short?, octets?_of_not_mem (not_dot_of_mem_groupChars _)]

theorem mem_octetChars {bits : BitVec 32} {c : Char} (h : c ∈ octetChars bits) :
    c = '.' ∨ Text.isDigit c = true := by
  obtain ⟨p, ps, hparts⟩ : ∃ p ps, octets bits = p :: ps := ⟨_, _, rfl⟩
  rw [octetChars, hparts, List.map_cons, joined_cons] at h
  rcases List.mem_append.mp h with h | h
  · exact .inr (Text.isDigit_of_mem_decimal h)
  · obtain ⟨q, hq, hc⟩ := List.mem_flatMap.mp h
    obtain ⟨g, -, rfl⟩ := List.mem_map.mp hq
    exact (List.mem_cons.mp hc).imp_right Text.isDigit_of_mem_decimal

/-- Texts of addresses have digits, dots and colons. -/
theorem mem_chars {a : Address} {c : Char} (h : c ∈ a.chars) :
    c = '.' ∨ c = ':' ∨ Text.isHexDigit c = true := by
  have hoctets {bits : BitVec 32} (h : c ∈ octetChars bits) :
      c = '.' ∨ c = ':' ∨ Text.isHexDigit c = true :=
    (mem_octetChars h).imp_right fun hdigit => .inr (Text.isHexDigit_of_isDigit hdigit)
  cases a with
  | v4 bits => exact hoctets h
  | v6 bits =>
    have h : c ∈ longChars bits := h
    rcases longChars_cases bits with ⟨short, -, htext⟩ | ⟨start, length, -, -, htext⟩ | htext
    · rw [htext] at h
      rcases List.mem_append.mp h with h | h
      · have hstart : ([':', ':', 'f', 'f', 'f', 'f', ':'].all fun c =>
            c == ':' || Text.isHexDigit c) = true := by decide
        exact .inr (by simpa using List.all_eq_true.mp hstart c h)
      · exact hoctets h
    · rw [htext, List.mem_append, List.mem_cons, List.mem_cons] at h
      rcases h with h | rfl | rfl | h
      · exact .inr (mem_groupChars h)
      · exact .inr (.inl rfl)
      · exact .inr (.inl rfl)
      · exact .inr (mem_groupChars h)
    · exact .inr (mem_groupChars (htext ▸ h))

/-- Every address is the one that its text names. -/
theorem ofChars?_chars (a : Address) : ofChars? a.chars = some a := by
  cases a with
  | v4 bits => rw [ofChars?, chars, short?_octetChars]
  | v6 bits => rw [ofChars?, chars, short?_longChars, long?_longChars, Option.map_some]

end Address
end FleetBoot
