import FleetBoot.Proofs.Store.Network

/-! Filling the catalogs and the defaults of networks. Calls that succeed in one order succeed in
every order, and leave the same rows. -/
namespace FleetBoot

/-- The key that the target names, if it is of this kind. -/
def NetworkTarget.key? : NetworkTarget → (k : Kind) → Option k.Key
  | .payload id, .payload => some id
  | .image key, .image => some key
  | _, _ => none

/-- A call that adds an entry to a catalog, or gives a network a default. -/
inductive Registration where
  | entry {k : Kind} (entry : k.Entry)
  | network (d : NetworkDefault)

namespace Registration

/-- The entry that is added, if it is of this kind. -/
def added? : (k : Kind) → Registration → Option k.Entry
  | .payload, @entry .payload e => some e
  | .image, @entry .image e => some e
  | _, _ => none

/-- The row for the network, if its default is of this kind. -/
def row? (k : Kind) : Registration → Option (NetworkRow k)
  | .entry _ => none
  | .network d => (Cidr.parse? d.cidr).bind fun c => (d.target.key? k).map fun key => ⟨c.text, key⟩

/-- The network is spelled as a block. -/
def Readable : Registration → Prop
  | .entry _ => True
  | .network d => ∃ c, Cidr.parse? d.cidr = some c

@[simp] theorem added?_entry {k : Kind} (e : k.Entry) : (entry e).added? k = some e := by
  cases k <;> rfl

theorem added?_of_ne {j k : Kind} (e : j.Entry) (h : j ≠ k) : (entry e).added? k = none := by
  cases j <;> cases k <;> first | rfl | exact absurd rfl h

@[simp] theorem added?_network (d : NetworkDefault) (k : Kind) : (network d).added? k = none := by
  cases k <;> rfl

theorem added?_eq_some_iff {k : Kind} {e : k.Entry} {c : Registration} :
    c.added? k = some e ↔ c = .entry e := by
  constructor
  · intro h
    cases c with
    | network d => simp at h
    | @entry j e' =>
      by_cases hj : j = k
      · subst hj
        rw [added?_entry, Option.some_inj] at h
        rw [h]
      · rw [added?_of_ne e' hj] at h
        cases h
  · rintro rfl
    exact added?_entry e

theorem row?_eq_some_iff {k : Kind} {d : NetworkDefault} {row : NetworkRow k} :
    (network d).row? k = some row ↔ ∃ c, Cidr.parse? d.cidr = some c ∧ row.subnet = c.text ∧
      d.target.key? k = some row.key := by
  simp only [row?, Option.bind_eq_some_iff, Option.map_eq_some_iff]
  constructor
  · rintro ⟨c, hc, key, hkey, rfl⟩
    exact ⟨c, hc, rfl, hkey⟩
  · rintro ⟨c, hc, hsubnet, hkey⟩
    exact ⟨c, hc, row.key, hkey, by rw [← hsubnet]⟩

end Registration

namespace Store

/-- Carries out one call. -/
def enter (s : Store) : Registration → Except StoreError Store
  | .entry e => s.register e
  | .network d => s.addNetworkDefault d

/-- Carries out calls in order, up to the first that fails. -/
def enterAll (s : Store) (calls : List Registration) : Except StoreError Store :=
  calls.foldlM enter s

end Store

namespace Shelf
variable {k : Kind} {s : Shelf k}

/-- With the rows that the calls add. -/
def entered (s : Shelf k) (calls : List Registration) : Shelf k :=
  { s with
    catalog := s.catalog ++ calls.filterMap (Registration.added? k)
    networks := s.networks ++ calls.filterMap (Registration.row? k) }

@[simp] theorem entered_nil (s : Shelf k) : s.entered [] = s := by simp [entered]

theorem entered_append (s : Shelf k) (calls more : List Registration) :
    s.entered (calls ++ more) = (s.entered calls).entered more := by
  simp [entered, List.append_assoc]

theorem entered_entry (s : Shelf k) (e : k.Entry) :
    s.entered [.entry e] = { s with catalog := s.catalog ++ [e] } := by
  simp [entered, Registration.row?]

theorem entered_of_none {c : Registration} (hentry : c.added? k = none) (hrow : c.row? k = none) :
    s.entered [c] = s := by
  simp [entered, hentry, hrow]

theorem entered_network {d : NetworkDefault} {row : NetworkRow k}
    (h : (Registration.network d).row? k = some row) :
    s.entered [.network d] = { s with networks := s.networks ++ [row] } := by
  simp [entered, h]

/-- The first of several calls keeps keys apart if all of them together do. -/
theorem Keyed.of_entered_cons {c : Registration} {calls : List Registration}
    (h : (s.entered (c :: calls)).Keyed) : (s.entered [c]).Keyed := by
  obtain ⟨hcatalog, hassignments, hnetworks⟩ := h
  have hcalls : [c].Sublist (c :: calls) := List.cons_sublist_cons.mpr (List.nil_sublist calls)
  have hentries := (List.Sublist.refl s.catalog).append (hcalls.filterMap (Registration.added? k))
  have hrows := (List.Sublist.refl s.networks).append (hcalls.filterMap (Registration.row? k))
  exact ⟨(hentries.map Kind.keyOf).nodup hcatalog, hassignments,
    (hrows.map NetworkRow.subnet).nodup hnetworks⟩

theorem entered_perm (s : Shelf k) {calls calls' : List Registration} (h : calls.Perm calls') :
    (s.entered calls).catalog.Perm (s.entered calls').catalog ∧
      (s.entered calls).networks.Perm (s.entered calls').networks :=
  ⟨(h.filterMap _).append_left s.catalog, (h.filterMap _).append_left s.networks⟩

theorem Keyed.perm {t : Shelf k} (hs : s.Keyed) (hcatalog : s.catalog.Perm t.catalog)
    (hassignments : s.assignments = t.assignments) (hnetworks : s.networks.Perm t.networks) :
    t.Keyed where
  catalog := (hcatalog.map Kind.keyOf).nodup_iff.mp hs.catalog
  assignments := hassignments ▸ hs.assignments
  networks := (hnetworks.map NetworkRow.subnet).nodup_iff.mp hs.networks

/-- An entry under a free key is added. -/
theorem register_of_keyed {e : k.Entry} (h : (s.entered [.entry e]).Keyed) :
    s.register e = .ok (s.entered [.entry e]) := by
  have hnone : s.lookup? (Kind.keyOf e) = none := by
    rw [entered_entry] at h
    have hnodup := h.catalog
    rw [List.map_append, List.nodup_append] at hnodup
    refine List.find?_eq_none.mpr fun e' he' => ?_
    simpa using hnodup.2.2 _ (List.mem_map_of_mem he') _ List.mem_cons_self
  rw [register, hnone, entered_entry]

/-- A network that has no default is given one. -/
theorem addNetwork_of_keyed {row : NetworkRow k}
    (h : Keyed { s with networks := s.networks ++ [row] }) :
    s.addNetwork row = .ok { s with networks := s.networks ++ [row] } := by
  have hnodup := h.networks
  rw [List.map_append, List.nodup_append] at hnodup
  have hfree : (s.networks.any fun n => n.subnet = row.subnet) = false := by
    rw [List.any_eq_false]
    intro n hn
    simpa using hnodup.2.2 _ (List.mem_map_of_mem hn) _ List.mem_cons_self
  rw [addNetwork, hfree]
  rfl

theorem addNetwork_ok {row : NetworkRow k} {t : Shelf k} (h : s.addNetwork row = .ok t) :
    t = { s with networks := s.networks ++ [row] } ∧ (s.Keyed → t.Keyed) := by
  unfold addNetwork at h
  split at h
  · cases h
  · next hfree =>
    cases h
    have hnew : ∀ n ∈ s.networks, n.subnet ≠ row.subnet := by simpa using hfree
    exact ⟨rfl, fun hs => ⟨hs.catalog, hs.assignments, nodup_keys_append hs.networks hnew⟩⟩

end Shelf

namespace Store
variable {s t : Store} {calls : List Registration}

/-- A default goes to the shelf of its kind, under the text of its block. -/
theorem addNetworkDefault_eq {d : NetworkDefault} {c : Cidr} (hc : Cidr.parse? d.cidr = some c) :
    ∃ (k : Kind) (row : NetworkRow k), s.addNetworkDefault d = s.addNetworkRow row ∧
      (Registration.network d).row? k = some row ∧
      ∀ j, k ≠ j → (Registration.network d).row? j = none := by
  obtain ⟨cidr, target⟩ := d
  cases target with
  | payload id =>
    refine ⟨.payload, ⟨c.text, id⟩, ?_, ?_, fun j hj => ?_⟩
    · simp only [addNetworkDefault, Cidr.parse, hc]
    · simp only [Registration.row?, hc, NetworkTarget.key?, Option.bind_some, Option.map_some]
    · cases j with
      | payload => exact absurd rfl hj
      | image => simp only [Registration.row?, hc, NetworkTarget.key?, Option.bind_some, Option.map_none]
  | image key =>
    refine ⟨.image, ⟨c.text, key⟩, ?_, ?_, fun j hj => ?_⟩
    · simp only [addNetworkDefault, Cidr.parse, hc]
    · simp only [Registration.row?, hc, NetworkTarget.key?, Option.bind_some, Option.map_some]
    · cases j with
      | image => exact absurd rfl hj
      | payload => simp only [Registration.row?, hc, NetworkTarget.key?, Option.bind_some, Option.map_none]

/-- A call that puts a shelf in place adds its rows there, and none elsewhere. -/
theorem shelf_entered {k : Kind} {c : Registration} {shelf : Shelf k}
    (hself : shelf = (s.shelf k).entered [c])
    (hother : ∀ j, k ≠ j → c.added? j = none ∧ c.row? j = none) (j : Kind) :
    (s.withShelf shelf).shelf j = (s.shelf j).entered [c] := by
  by_cases hj : k = j
  · subst hj
    rw [shelf_withShelf, hself]
  · obtain ⟨hentry, hrow⟩ := hother j hj
    rw [shelf_withShelf_of_ne s shelf hj, Shelf.entered_of_none hentry hrow]

theorem enter_ok {c : Registration} (h : s.enter c = .ok t) :
    c.Readable ∧ (∀ k, t.shelf k = (s.shelf k).entered [c]) ∧ (s.Keyed → t.Keyed) := by
  cases c with
  | @entry k e =>
    rcases s.register_cases e with ⟨-, hrefused⟩ | ⟨-, u, hu, hadds⟩
    · cases hrefused.symm.trans h
    · cases hu.symm.trans h
      obtain ⟨-, rfl⟩ := id hadds
      refine ⟨trivial, shelf_entered ((s.shelf k).entered_entry e).symm fun j hj => ?_, hadds.keyed⟩
      exact ⟨Registration.added?_of_ne e hj, rfl⟩
  | network d =>
    cases hc : Cidr.parse? d.cidr with
    | none => simp only [enter, addNetworkDefault, Cidr.parse, hc, reduceCtorEq] at h
    | some c =>
      obtain ⟨k, row, hadd, hrow, hother⟩ := addNetworkDefault_eq (s := s) hc
      rw [enter, hadd, addNetworkRow] at h
      cases hshelf : (s.shelf k).addNetwork row with
      | error cause =>
        rw [hshelf] at h
        cases h
      | ok shelf =>
        rw [hshelf] at h
        cases h
        obtain ⟨rfl, hkeyed⟩ := Shelf.addNetwork_ok hshelf
        refine ⟨⟨c, hc⟩, shelf_entered (Shelf.entered_network hrow).symm fun j hj => ?_, fun hs =>
          hs.withShelf (hkeyed (hs.shelf k))⟩
        exact ⟨Registration.added?_network d j, hother j hj⟩

theorem exists_enter {c : Registration} (hread : c.Readable)
    (h : ∀ k, ((s.shelf k).entered [c]).Keyed) : ∃ t, s.enter c = .ok t := by
  cases c with
  | @entry k e => exact ⟨_, by rw [enter, register, Shelf.register_of_keyed (h k)]; rfl⟩
  | network d =>
    obtain ⟨c, hc⟩ := hread
    obtain ⟨k, row, hadd, hrow, -⟩ := addNetworkDefault_eq (s := s) hc
    have hkeyed := h k
    rw [Shelf.entered_network hrow] at hkeyed
    exact ⟨_, by rw [enter, hadd, addNetworkRow, Shelf.addNetwork_of_keyed hkeyed]; rfl⟩

theorem enterAll_ok (h : s.enterAll calls = .ok t) :
    (∀ c ∈ calls, c.Readable) ∧ (∀ k, t.shelf k = (s.shelf k).entered calls) ∧
      (s.Keyed → t.Keyed) := by
  induction calls generalizing s with
  | nil =>
    cases h
    exact ⟨nofun, fun k => (Shelf.entered_nil _).symm, id⟩
  | cons c calls ih =>
    rw [enterAll, List.foldlM_cons] at h
    cases hc : s.enter c with
    | error e =>
      rw [hc] at h
      cases h
    | ok u =>
      rw [hc] at h
      obtain ⟨hread, hu, hkeyed⟩ := enter_ok hc
      obtain ⟨hreadAll, ht, hkeyedAll⟩ := ih h
      refine ⟨List.forall_mem_cons.mpr ⟨hread, hreadAll⟩, fun k => ?_, fun hs => hkeyedAll (hkeyed hs)⟩
      rw [ht k, hu k, ← Shelf.entered_append, List.singleton_append]

theorem exists_enterAll (hread : ∀ c ∈ calls, c.Readable)
    (h : ∀ k, ((s.shelf k).entered calls).Keyed) : ∃ t, s.enterAll calls = .ok t := by
  induction calls generalizing s with
  | nil => exact ⟨s, rfl⟩
  | cons c calls ih =>
    obtain ⟨u, hu⟩ := exists_enter (hread c List.mem_cons_self) fun k => (h k).of_entered_cons
    obtain ⟨t, ht⟩ := ih (fun d hd => hread d (List.mem_cons_of_mem c hd)) fun k => by
      rw [(enter_ok hu).2.1 k, ← Shelf.entered_append]
      exact h k
    refine ⟨t, ?_⟩
    rw [enterAll, List.foldlM_cons, hu]
    exact ht

/-- Calls that succeed in one order succeed in every other. -/
theorem exists_enterAll_perm {calls' : List Registration} (hs : s.Keyed)
    (h : s.enterAll calls = .ok t) (hperm : calls.Perm calls') :
    ∃ t', s.enterAll calls' = .ok t' := by
  obtain ⟨hread, ht, hkeyed⟩ := enterAll_ok h
  refine exists_enterAll (fun c hc => hread c (hperm.mem_iff.mpr hc)) fun k => ?_
  obtain ⟨hcatalog, hnetworks⟩ := (s.shelf k).entered_perm hperm
  have hshelf : ((s.shelf k).entered calls).Keyed := ht k ▸ (hkeyed hs).shelf k
  exact hshelf.perm hcatalog rfl hnetworks

end Store
end FleetBoot
