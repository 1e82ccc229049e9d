import FleetBoot.Proofs.Address.Cidr
import FleetBoot.Proofs.Store.Change

/-! The default of the smallest network around an address. Where networks stand under the texts of
their blocks, no two of one size hold the same address, so that the order of the rows does not
matter. -/
namespace FleetBoot.Shelf
variable {k : Kind} {s t : Shelf k} {ip : Address} {row row' : NetworkRow k} {n : Nat} {e e' : k.Entry}

theorem covering_eq_some_iff : s.covering ip row = some (n, e) ↔
    s.lookup? row.key = some e ∧
      ∃ c, Cidr.parse? row.subnet = some c ∧ c.contains ip = true ∧ c.length = n := by
  simp only [covering, Option.bind_eq_bind, Option.bind_eq_some_iff]
  constructor
  · rintro ⟨e', he', c, hc, hcontains⟩
    split at hcontains
    · next hip =>
      cases hcontains
      exact ⟨he', c, hc, hip, rfl⟩
    · cases hcontains
  · rintro ⟨he, c, hc, hip, rfl⟩
    exact ⟨e, he, c, hc, by rw [if_pos hip]; rfl⟩

/-- Rows stand under the texts of their blocks. -/
def Canonical (s : Shelf k) : Prop := ∀ row ∈ s.networks, ∃ c : Cidr, row.subnet = c.text

/-- Only one network of each size holds an address. -/
theorem eq_of_covering (hs : s.Keyed) (hcanonical : s.Canonical) (h : row ∈ s.networks)
    (h' : row' ∈ s.networks) (hrow : s.covering ip row = some (n, e))
    (hrow' : s.covering ip row' = some (n, e')) : row = row' := by
  obtain ⟨c, hc⟩ := hcanonical row h
  obtain ⟨c', hc'⟩ := hcanonical row' h'
  obtain ⟨-, b, hb, hip, hn⟩ := covering_eq_some_iff.mp hrow
  obtain ⟨-, b', hb', hip', hn'⟩ := covering_eq_some_iff.mp hrow'
  obtain rfl : c = b := by rwa [hc, Cidr.parse?_text, Option.some_inj] at hb
  obtain rfl : c' = b' := by rwa [hc', Cidr.parse?_text, Option.some_inj] at hb'
  have hblock : c = c' := Cidr.eq_of_contains hip hip' (hn.trans hn'.symm)
  exact List.inj_on_of_nodup_map hs.networks h h' (by rw [hc, hc', hblock])

theorem length_le_of_longer {α : Type} {best : Option (Nat × α)} {next b : Nat × α}
    (h : longer best next = some b) : next.1 ≤ b.1 ∧ ∀ a ∈ best, a.1 ≤ b.1 := by
  unfold longer at h
  split at h
  · next a =>
    split at h
    · next hlt =>
      cases h
      exact ⟨hlt.le, fun a ha => by cases ha; exact le_rfl⟩
    · next hle =>
      cases h
      refine ⟨le_rfl, fun a ha => ?_⟩
      cases ha
      exact Nat.le_of_not_lt hle
  · cases h
    exact ⟨le_rfl, nofun⟩

theorem length_le_of_foldl_longer {α : Type} {best : Option (Nat × α)} {blocks : List (Nat × α)}
    {b : Nat × α} (h : blocks.foldl longer best = some b) :
    (∀ c ∈ blocks, c.1 ≤ b.1) ∧ ∀ a ∈ best, a.1 ≤ b.1 := by
  induction blocks generalizing best with
  | nil =>
    refine ⟨nofun, fun a ha => ?_⟩
    cases ha.symm.trans h
    exact le_rfl
  | cons c blocks ih =>
    obtain ⟨hrest, hbest⟩ := ih h
    obtain ⟨m, hm⟩ : ∃ m, longer best c = some m := by
      unfold longer
      split
      · split <;> exact ⟨_, rfl⟩
      · exact ⟨_, rfl⟩
    obtain ⟨hnext, hold⟩ := length_le_of_longer hm
    have hmb := hbest m hm
    refine ⟨fun d hd => ?_, fun a ha => (hold a ha).trans hmb⟩
    rcases List.mem_cons.mp hd with rfl | hd
    · exact hnext.trans hmb
    · exact hrest d hd

theorem foldl_longer_eq_none {α : Type} {best : Option (Nat × α)} {blocks : List (Nat × α)}
    (h : blocks.foldl longer best = none) : best = none ∧ blocks = [] := by
  induction blocks generalizing best with
  | nil => exact ⟨h, rfl⟩
  | cons c blocks ih =>
    have hnone := (ih h).1
    unfold longer at hnone
    split at hnone
    · split at hnone <;> cases hnone
    · cases hnone

/-- The row gives the address the entry, and no row of a smaller network gives it anything. -/
def Smallest (s : Shelf k) (ip : Address) (row : NetworkRow k) (e : k.Entry) : Prop :=
  row ∈ s.networks ∧ ∃ n, s.covering ip row = some (n, e) ∧
    ∀ row' ∈ s.networks, ∀ n' e', s.covering ip row' = some (n', e') → n' ≤ n

theorem networkDefault_eq_some_iff (hs : s.Keyed) (hcanonical : s.Canonical) :
    s.networkDefault ip = some e ↔ ∃ row, s.Smallest ip row e := by
  have hmem (row : NetworkRow k) (h : row ∈ s.networks) {b : Nat × k.Entry}
      (hb : s.covering ip row = some b) : b ∈ s.networks.filterMap (s.covering ip) :=
    List.mem_filterMap.mpr ⟨row, h, hb⟩
  constructor
  · intro h
    obtain ⟨⟨n, e'⟩, hfold, rfl⟩ := Option.map_eq_some_iff.mp h
    obtain ⟨row, hrow, hcovering⟩ := List.mem_filterMap.mp ((foldl_longer hfold).resolve_left nofun)
    exact ⟨row, hrow, n, hcovering, fun row' h' n' e' hc =>
      (length_le_of_foldl_longer hfold).1 (n', e') (hmem row' h' hc)⟩
  · rintro ⟨row, hrow, n, hcovering, hmax⟩
    cases hfold : (s.networks.filterMap (s.covering ip)).foldl longer none with
    | none =>
      have hnil := (foldl_longer_eq_none hfold).2
      exact absurd (hnil ▸ hmem row hrow hcovering) List.not_mem_nil
    | some b =>
      obtain ⟨row', hrow', hcovering'⟩ :=
        List.mem_filterMap.mp ((foldl_longer hfold).resolve_left nofun)
      have hn : b.1 = n := Nat.le_antisymm (hmax row' hrow' b.1 b.2 hcovering')
        ((length_le_of_foldl_longer hfold).1 (n, e) (hmem row hrow hcovering))
      have hsame : row' = row :=
        eq_of_covering hs hcanonical hrow' hrow (e := b.2) (hn ▸ hcovering') hcovering
      subst hsame
      cases hcovering'.symm.trans hcovering
      rw [networkDefault, hfold]
      rfl

theorem lookup?_perm (hs : s.Keyed) (ht : t.Keyed) (h : s.catalog.Perm t.catalog) (key : k.Key) :
    s.lookup? key = t.lookup? key := by
  ext e
  rw [hs.lookup?_eq_some_iff, ht.lookup?_eq_some_iff, h.mem_iff]

/-- The order of the rows does not matter. -/
theorem networkDefault_perm (hs : s.Keyed) (ht : t.Keyed) (hcanonical : s.Canonical)
    (hcatalog : s.catalog.Perm t.catalog) (hnetworks : s.networks.Perm t.networks) (ip : Address) :
    s.networkDefault ip = t.networkDefault ip := by
  have ht' : t.Canonical := fun row h => hcanonical row (hnetworks.mem_iff.mpr h)
  have hcovering : s.covering ip = t.covering ip := by
    funext row
    simp only [covering, lookup?_perm hs ht hcatalog]
  ext e
  rw [networkDefault_eq_some_iff hs hcanonical, networkDefault_eq_some_iff ht ht']
  simp only [Smallest, hcovering, hnetworks.mem_iff]

/-- An address in the longer form gets what the shorter one gets. -/
theorem networkDefault_mapped (s : Shelf k) (bits : BitVec 32) :
    s.networkDefault (.v6 (Address.mapped bits)) = s.networkDefault (.v4 bits) := by
  have hcovering : s.covering (.v6 (Address.mapped bits)) = s.covering (.v4 bits) := by
    funext row
    simp only [covering, Cidr.contains_mapped]
  rw [networkDefault, networkDefault, hcovering]

end FleetBoot.Shelf
