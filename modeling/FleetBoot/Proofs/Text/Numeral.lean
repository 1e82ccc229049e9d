import FleetBoot.Text.Digits
import Mathlib.Data.Nat.Digits.Lemmas

/-! Numerals are read back: their characters spell their digits, and these have the value. -/
namespace FleetBoot.Text
variable {b n d k : Nat}

theorem valueOf_eq_ofDigits (b : Nat) (ds : List Nat) :
    valueOf b ds = Nat.ofDigits b ds.reverse := by
  rw [Nat.ofDigits_eq_foldr, List.foldr_reverse, valueOf]
  congr 1
  funext m d
  simp only [Nat.cast_id]
  ring

/-- The digits of a number, most significant first. Zero has one. -/
def places (b n : Nat) : List Nat := if n = 0 then [0] else (Nat.digits b n).reverse

theorem places_of_lt (h : n < b) : places b n = [n] := by
  unfold places
  split
  · next h0 => rw [h0]
  · next h0 => rw [Nat.digits_of_lt b n h0 h, List.reverse_singleton]

theorem places_of_le (hb : 1 < b) (h : b ≤ n) : places b n = places b (n / b) ++ [n % b] := by
  have hn : n ≠ 0 := by omega
  have hq : n / b ≠ 0 := (Nat.div_pos h (by omega)).ne'
  rw [places, places, if_neg hn, if_neg hq, Nat.digits_def' hb (Nat.pos_of_ne_zero hn),
    List.reverse_cons]

theorem numeral_eq_places (hb : 1 < b) (n : Nat) : numeral b n = (places b n).map digitChar := by
  induction n using Nat.strong_induction_on with
  | _ n ih =>
    rw [numeral]
    split
    · rw [places_of_lt (by omega), List.map_singleton]
    · have hle : b ≤ n := by omega
      rw [ih (n / b) (Nat.div_lt_self (by omega) hb), places_of_le hb hle, List.map_append,
        List.map_singleton]

theorem places_ne_nil (b n : Nat) : places b n ≠ [] := by
  unfold places
  split
  · exact List.cons_ne_nil 0 []
  · next hn =>
    rw [Ne, List.reverse_eq_nil_iff]
    exact Nat.digits_ne_nil_iff_ne_zero.mpr hn

theorem lt_of_mem_places (hb : 1 < b) (h : d ∈ places b n) : d < b := by
  unfold places at h
  split at h
  · rw [List.mem_singleton.mp h]
    omega
  · exact Nat.digits_lt_base hb (List.mem_reverse.mp h)

@[simp] theorem valueOf_places (b n : Nat) : valueOf b (places b n) = n := by
  rw [valueOf_eq_ofDigits]
  unfold places
  split
  · next h => simp [h]
  · rw [List.reverse_reverse, Nat.ofDigits_digits]

theorem length_places_le (hb : 1 < b) (hk : 0 < k) (h : n < b ^ k) : (places b n).length ≤ k := by
  unfold places
  split
  · exact hk
  · rwa [List.length_reverse, Nat.digits_length_le_iff hb]

/-- Only the digits of zero start with zero. -/
theorem eq_nil_of_places {ds : List Nat} (h : places b n = 0 :: ds) : ds = [] := by
  unfold places at h
  split at h
  · exact (List.cons.inj h).2.symm
  · next hn =>
    have hlast : (Nat.digits b n).getLast (Nat.digits_ne_nil_iff_ne_zero.mpr hn) = 0 := by
      rw [List.getLast_eq_head_reverse, List.head_eq_iff_head?_eq_some, h, List.head?_cons]
    exact absurd hlast (Nat.getLast_digit_ne_zero b hn)

theorem digit?_digitChar : ∀ d < 10, digit? (digitChar d) = some d := by decide

theorem hexDigit?_digitChar : ∀ d < 16, hexDigit? (digitChar d) = some d := by decide

theorem mapM_digit? {ds : List Nat} (h : ∀ d ∈ ds, d < 10) :
    (ds.map digitChar).mapM digit? = some ds := by
  induction ds with
  | nil => rfl
  | cons d ds ih =>
    rw [List.map_cons, List.mapM_cons, digit?_digitChar d (h d List.mem_cons_self),
      ih fun e he => h e (List.mem_cons_of_mem d he)]
    rfl

theorem decimal?_decimal (n : Nat) : decimal? (decimal n) = some n := by
  have hplaces : decimal n = (places 10 n).map digitChar := numeral_eq_places (by decide) n
  have hne : (decimal n).isEmpty = false := by
    rw [hplaces, List.isEmpty_eq_false_iff]
    simpa using places_ne_nil 10 n
  rw [decimal?, hne, hplaces, mapM_digit? fun d hd => lt_of_mem_places (by decide) hd]
  simp

/-! ### Leading zeros -/

theorem valueOf_concat (b : Nat) (ds : List Nat) (d : Nat) :
    valueOf b (ds ++ [d]) = valueOf b ds * b + d := List.foldl_append

theorem valueOf_zeros (b k : Nat) (ds : List Nat) :
    valueOf b (List.replicate k 0 ++ ds) = valueOf b ds := by
  induction k with
  | zero => rfl
  | succ k ih =>
    rw [List.replicate_succ, List.cons_append, ← ih, valueOf, List.foldl_cons, Nat.zero_mul]
    rfl

/-- A row of digits is the digits of its value behind zeros. -/
theorem exists_zeros_places {ds : List Nat} (hb : 1 < b) (hds : ∀ d ∈ ds, d < b) (hne : ds ≠ []) :
    ∃ k, ds = List.replicate k 0 ++ places b (valueOf b ds) := by
  induction ds using List.reverseRecOn with
  | nil => exact absurd rfl hne
  | append_singleton ds d ih =>
    obtain ⟨hds, hd⟩ := List.forall_mem_append.mp hds
    have hd : d < b := hd d List.mem_cons_self
    rw [valueOf_concat]
    by_cases hnil : ds = []
    · subst hnil
      exact ⟨0, by simp [valueOf, places_of_lt hd]⟩
    · obtain ⟨k, hk⟩ := ih hds hnil
      by_cases hvalue : valueOf b ds = 0
      · -- only zeros so far, so that the last digit is the first to count
        rw [hvalue, places_of_lt (by omega)] at hk
        refine ⟨k + 1, ?_⟩
        rw [hvalue, Nat.zero_mul, Nat.zero_add, places_of_lt hd, hk, List.replicate_succ']
      · have hle : b ≤ valueOf b ds * b + d :=
          (Nat.le_mul_of_pos_left b (Nat.pos_of_ne_zero hvalue)).trans (Nat.le_add_right _ d)
        have hdiv : (valueOf b ds * b + d) / b = valueOf b ds := by
          rw [Nat.mul_comm, Nat.mul_add_div (by omega), Nat.div_eq_of_lt hd, Nat.add_zero]
        have hmod : (valueOf b ds * b + d) % b = d := by
          rw [Nat.mul_comm, Nat.mul_add_mod, Nat.mod_eq_of_lt hd]
        refine ⟨k, ?_⟩
        rw [places_of_le hb hle, hdiv, hmod, ← List.append_assoc, ← hk]

theorem eq_digitChar_of_digit? {c : Char} (h : digit? c = some d) : d < 10 ∧ c = digitChar d := by
  unfold digit? at h
  split at h
  · next hc =>
    obtain rfl := Option.some.inj h
    have hlow : '0'.toNat ≤ c.toNat := hc.1
    have hhigh : c.toNat ≤ '9'.toNat := hc.2
    have hnat : '0'.toNat + (c.toNat - '0'.toNat) = c.toNat := Nat.add_sub_of_le hlow
    have hlt : c.toNat - '0'.toNat < 10 := by
      simp only [Char.reduceToNat] at hhigh ⊢
      omega
    exact ⟨hlt, by rw [digitChar, if_pos hlt, hnat, Char.ofNat_toNat]⟩
  · cases h

theorem eq_map_of_mapM_digit? {s : List Char} {ds : List Nat} (h : s.mapM digit? = some ds) :
    s = ds.map digitChar ∧ ∀ d ∈ ds, d < 10 := by
  induction s generalizing ds with
  | nil =>
    obtain rfl := Option.some.inj h
    exact ⟨rfl, nofun⟩
  | cons c s ih =>
    simp only [List.mapM_cons, Option.bind_eq_bind, Option.bind_eq_some_iff] at h
    obtain ⟨d, hd, ds, hds, hcons⟩ := h
    obtain rfl := Option.some.inj hcons
    obtain ⟨hlt, rfl⟩ := eq_digitChar_of_digit? hd
    obtain ⟨rfl, hall⟩ := ih hds
    exact ⟨rfl, List.forall_mem_cons.mpr ⟨hlt, hall⟩⟩

/-- A numeral is read whether or not zeros stand before it. -/
theorem decimal?_eq_some_iff {s : List Char} :
    decimal? s = some n ↔ ∃ k, s = List.replicate k '0' ++ decimal n := by
  have hplaces : decimal n = (places 10 n).map digitChar := numeral_eq_places (by decide) n
  constructor
  · intro h
    unfold decimal? at h
    split at h
    · cases h
    · next hne =>
      obtain ⟨ds, hds, hvalue⟩ := Option.map_eq_some_iff.mp h
      obtain ⟨rfl, hlt⟩ := eq_map_of_mapM_digit? hds
      have hnil : ds ≠ [] := by
        rintro rfl
        exact hne rfl
      obtain ⟨k, hk⟩ := exists_zeros_places (by decide) hlt hnil
      refine ⟨k, ?_⟩
      rw [hvalue] at hk
      rw [hplaces, hk, List.map_append, List.map_replicate]
      rfl
  · rintro ⟨k, rfl⟩
    have hdigits : List.replicate k '0' ++ decimal n =
        (List.replicate k 0 ++ places 10 n).map digitChar := by
      rw [hplaces, List.map_append, List.map_replicate]
      rfl
    have hlt : ∀ d ∈ List.replicate k 0 ++ places 10 n, d < 10 := by
      refine List.forall_mem_append.mpr ⟨fun d hd => ?_, fun d => lt_of_mem_places (by decide)⟩
      rw [List.eq_of_mem_replicate hd]
      decide
    have hne : (List.replicate k '0' ++ decimal n).isEmpty = false := by
      rw [hdigits, List.isEmpty_eq_false_iff]
      simp [places_ne_nil]
    rw [decimal?, hne, hdigits, mapM_digit? hlt]
    simp [valueOf_zeros]

end FleetBoot.Text
