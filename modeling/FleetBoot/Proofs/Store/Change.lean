import FleetBoot.Proofs.Store.Rows
import Mathlib.Data.List.Nodup

/-! Databases that differ in one row of one table, and the calls that make such a difference. -/
namespace FleetBoot

section Lists
variable {α κ : Type} {key : α → κ}

/-- Among rows of different keys only one has the key of a row in their midst. -/
theorem ne_of_nodup_keys {before after : List α} {old : α}
    (h : ((before ++ old :: after).map key).Nodup) :
    (∀ a ∈ before, key a ≠ key old) ∧ ∀ a ∈ after, key a ≠ key old := by
  simp only [List.map_append, List.map_cons, List.nodup_append, List.nodup_cons, List.mem_map,
    List.mem_cons] at h
  obtain ⟨-, ⟨hafter, -⟩, hbefore⟩ := h
  constructor
  · intro a ha
    exact hbefore (key a) ⟨a, ha, rfl⟩ (key old) (.inl rfl)
  · intro a ha hkey
    exact hafter ⟨a, ha, hkey⟩

/-- A row of another key may be added. -/
theorem nodup_keys_append {l : List α} {new : α} (h : (l.map key).Nodup)
    (hnew : ∀ a ∈ l, key a ≠ key new) : ((l ++ [new]).map key).Nodup := by
  rw [List.map_append, List.nodup_append]
  refine ⟨h, by simp, ?_⟩
  intro x hx y hy
  obtain ⟨a, ha, rfl⟩ := List.mem_map.mp hx
  rw [List.mem_singleton.mp hy]
  exact hnew a ha

variable [DecidableEq κ]

/-- Where all keys differ, a row is found under its key. -/
theorem find?_eq_some_iff_of_nodup {l : List α} {a : α} {x : κ} (h : (l.map key).Nodup) :
    l.find? (fun b => key b = x) = some a ↔ a ∈ l ∧ key a = x := by
  have hkey {b : α} (hb : l.find? (fun b => key b = x) = some b) : key b = x := by
    simpa using List.find?_some hb
  constructor
  · intro ha
    exact ⟨List.mem_of_find?_eq_some ha, hkey ha⟩
  · rintro ⟨hmem, rfl⟩
    cases hb : l.find? (fun b => key b = key a) with
    | none => simpa using List.find?_eq_none.mp hb a hmem
    | some b => rw [List.inj_on_of_nodup_map h (List.mem_of_find?_eq_some hb) hmem (hkey hb)]

theorem map_replace_of_nodup {before after : List α} {old new : α} (hkey : key old = key new)
    (h : ((before ++ old :: after).map key).Nodup) :
    (before ++ old :: after).map (fun a => if key a = key new then new else a) =
      before ++ new :: after := by
  obtain ⟨hbefore, hafter⟩ := ne_of_nodup_keys h
  have hkeep (l : List α) (hl : ∀ a ∈ l, key a ≠ key old) :
      l.map (fun a => if key a = key new then new else a) = l :=
    (List.map_congr_left fun a ha => if_neg (hkey ▸ hl a ha)).trans (List.map_id _)
  rw [List.map_append, List.map_cons, hkeep before hbefore, hkeep after hafter, if_pos hkey]

theorem filter_ne_of_nodup {before after : List α} {old : α}
    (h : ((before ++ old :: after).map key).Nodup) :
    (before ++ old :: after).filter (fun a => key a ≠ key old) = before ++ after := by
  obtain ⟨hbefore, hafter⟩ := ne_of_nodup_keys h
  have hkeep (l : List α) (hl : ∀ a ∈ l, key a ≠ key old) :
      l.filter (fun a => key a ≠ key old) = l :=
    List.filter_eq_self.mpr fun a ha => decide_eq_true (hl a ha)
  rw [List.filter_append, List.filter_cons_of_neg (by simp), hkeep before hbefore,
    hkeep after hafter]

end Lists

/-- No two rows of a table have the same key. -/
structure Shelf.Keyed {k : Kind} (s : Shelf k) : Prop where
  catalog : (s.catalog.map Kind.keyOf).Nodup
  assignments : (s.assignments.map (·.mac)).Nodup
  networks : (s.networks.map (·.subnet)).Nodup

namespace Shelf.Keyed
variable {k : Kind} {s : Shelf k}

theorem lookup?_eq_some_iff (hs : s.Keyed) {key : k.Key} {e : k.Entry} :
    s.lookup? key = some e ↔ e ∈ s.catalog ∧ Kind.keyOf e = key :=
  find?_eq_some_iff_of_nodup hs.catalog

theorem row?_eq_some_iff (hs : s.Keyed) {mac : String} {a : Assignment k} :
    s.row? mac = some a ↔ a ∈ s.assignments ∧ a.mac = mac :=
  find?_eq_some_iff_of_nodup hs.assignments

end Shelf.Keyed

structure Store.Keyed (s : Store) : Prop where
  shelf : ∀ k, (s.shelf k).Keyed
  parameters : (s.parameters.map fun p => (p.payloadId, p.name)).Nodup

namespace Store
variable {k : Kind} {s t : Store} {row : Assignment k} {entry : k.Entry}

/-- One assignment more, of a device that had none, and all else the same. -/
def AddsRow (s t : Store) (row : Assignment k) : Prop :=
  (s.shelf k).row? row.mac = none ∧ t = s.withShelf ((s.shelf k).withRow row)

/-- Another assignment in the place of one of the same device, and all else the same. -/
def ReplacesRow (s t : Store) (row : Assignment k) : Prop :=
  ∃ before old after, (s.shelf k).assignments = before ++ old :: after ∧ old.mac = row.mac ∧
    t = s.withShelf { s.shelf k with assignments := before ++ row :: after }

/-- One catalog entry more, under a key that was free, and all else the same. -/
def AddsEntry (s t : Store) (entry : k.Entry) : Prop :=
  (s.shelf k).lookup? (Kind.keyOf entry) = none ∧
    t = s.withShelf { s.shelf k with catalog := (s.shelf k).catalog ++ [entry] }

/-- One catalog entry less, and all else the same. -/
def RemovesEntry (s t : Store) (entry : k.Entry) : Prop :=
  ∃ before after, (s.shelf k).catalog = before ++ entry :: after ∧
    t = s.withShelf { s.shelf k with catalog := before ++ after }

theorem Keyed.withShelf (hs : s.Keyed) {shelf : Shelf k} (h : shelf.Keyed) :
    (s.withShelf shelf).Keyed where
  shelf j := by
    by_cases hj : k = j
    · subst hj
      rwa [shelf_withShelf]
    · rw [shelf_withShelf_of_ne s shelf hj]
      exact hs.shelf j
  parameters := by
    rw [parameters_withShelf]
    exact hs.parameters

theorem AddsRow.keyed (h : s.AddsRow t row) (hs : s.Keyed) : t.Keyed := by
  obtain ⟨hnone, rfl⟩ := h
  obtain ⟨hcatalog, hassignments, hnetworks⟩ := hs.shelf k
  have hnew : ∀ a ∈ (s.shelf k).assignments, a.mac ≠ row.mac := Shelf.row?_eq_none_iff.mp hnone
  exact hs.withShelf ⟨hcatalog, nodup_keys_append hassignments hnew, hnetworks⟩

theorem ReplacesRow.keyed (h : s.ReplacesRow t row) (hs : s.Keyed) : t.Keyed := by
  obtain ⟨before, old, after, hsplit, hmac, rfl⟩ := h
  obtain ⟨hcatalog, hassignments, hnetworks⟩ := hs.shelf k
  refine hs.withShelf ⟨hcatalog, ?_, hnetworks⟩
  simpa [hsplit, hmac] using hassignments

theorem AddsEntry.keyed (h : s.AddsEntry t entry) (hs : s.Keyed) : t.Keyed := by
  obtain ⟨hnone, rfl⟩ := h
  obtain ⟨hcatalog, hassignments, hnetworks⟩ := hs.shelf k
  have hnew : ∀ e ∈ (s.shelf k).catalog, Kind.keyOf e ≠ Kind.keyOf entry := by
    simpa [Shelf.lookup?] using hnone
  exact hs.withShelf ⟨nodup_keys_append hcatalog hnew, hassignments, hnetworks⟩

theorem RemovesEntry.keyed (h : s.RemovesEntry t entry) (hs : s.Keyed) : t.Keyed := by
  obtain ⟨before, after, hsplit, rfl⟩ := h
  obtain ⟨hcatalog, hassignments, hnetworks⟩ := hs.shelf k
  refine hs.withShelf ⟨?_, hassignments, hnetworks⟩
  have hsub : (before ++ after).Sublist (s.shelf k).catalog := by
    rw [hsplit]
    exact (List.Sublist.refl before).append (List.sublist_cons_self entry after)
  exact (hsub.map Kind.keyOf).nodup hcatalog

theorem replacesRow_update (hs : (s.shelf k).Keyed) {old : Assignment k}
    (hrow : (s.shelf k).row? row.mac = some old) : s.ReplacesRow (s.update row).2 row := by
  obtain ⟨before, after, hsplit⟩ := List.append_of_mem (List.mem_of_find?_eq_some hrow)
  have hmac : old.mac = row.mac := Shelf.mac_of_row? hrow
  have hnodup : ((before ++ old :: after).map Assignment.mac).Nodup := hsplit ▸ hs.assignments
  refine ⟨before, old, after, hsplit, hmac, ?_⟩
  simp only [update, Shelf.update, hsplit, map_replace_of_nodup hmac hnodup]

theorem update_cases (hs : (s.shelf k).Keyed) (row : Assignment k) :
    (s.update row).2 = s ∨ s.ReplacesRow (s.update row).2 row := by
  cases hrow : (s.shelf k).row? row.mac with
  | none => exact .inl (by rw [update_of_none hrow])
  | some old => exact .inr (replacesRow_update hs hrow)

/-- An entry is refused if the catalog has its key, and else it is added. -/
theorem register_cases (s : Store) (entry : k.Entry) :
    (∃ e ∈ (s.shelf k).catalog, Kind.keyOf e = Kind.keyOf entry) ∧
        s.register entry = .error (.occupied (.catalog k)) ∨
      (¬ ∃ e ∈ (s.shelf k).catalog, Kind.keyOf e = Kind.keyOf entry) ∧
        ∃ t, s.register entry = .ok t ∧ s.AddsEntry t entry := by
  rw [← Shelf.exists_lookup?_iff]
  cases hl : (s.shelf k).lookup? (Kind.keyOf entry) with
  | some old => exact .inl ⟨⟨old, rfl⟩, register_of_some hl⟩
  | none =>
    refine .inr ⟨?_, _, register_of_none hl, hl, rfl⟩
    rintro ⟨_, ⟨⟩⟩

theorem remove_cases (hs : (s.shelf k).Keyed) (key : k.Key) :
    s.remove k key = (none, s) ∨
      ∃ entry, (s.remove k key).1 = some entry ∧ Kind.keyOf entry = key ∧
        s.RemovesEntry (s.remove k key).2 entry := by
  cases hl : (s.shelf k).lookup? key with
  | none => exact .inl (remove_of_none hl)
  | some entry =>
    obtain ⟨before, after, hsplit⟩ := List.append_of_mem (List.mem_of_find?_eq_some hl)
    have hkey : Kind.keyOf entry = key := Shelf.keyOf_of_lookup? hl
    subst hkey
    have hnodup : ((before ++ entry :: after).map Kind.keyOf).Nodup := hsplit ▸ hs.catalog
    rw [remove_of_some hl]
    refine .inr ⟨entry, rfl, rfl, before, after, hsplit, ?_⟩
    simp only [Shelf.remove, hsplit, filter_ne_of_nodup hnodup]

@[simp] theorem withShelf_withShelf (s : Store) {k : Kind} (shelf shelf' : Shelf k) :
    (s.withShelf shelf).withShelf shelf' = s.withShelf shelf' := by cases k <;> rfl

/-- To remove what was added last restores the database. -/
theorem AddsEntry.remove (h : s.AddsEntry t entry) :
    t.remove k (Kind.keyOf entry) = (some entry, s) := by
  obtain ⟨hfree, rfl⟩ := h
  have hlookup : ((s.shelf k).catalog ++ [entry]).find?
      (fun e => Kind.keyOf e = Kind.keyOf entry) = some entry := by
    rw [List.find?_append, show List.find? _ _ = none from hfree]
    simp
  have hothers : ((s.shelf k).catalog ++ [entry]).filter
      (fun e => Kind.keyOf e ≠ Kind.keyOf entry) = (s.shelf k).catalog := by
    have hne : ∀ e ∈ (s.shelf k).catalog, Kind.keyOf e ≠ Kind.keyOf entry := by
      simpa [Shelf.lookup?] using hfree
    rw [List.filter_append, List.filter_eq_self.mpr (by simpa using hne)]
    simp
  simp only [Store.remove, shelf_withShelf, Shelf.lookup?, hlookup, Shelf.remove, hothers,
    withShelf_withShelf]
  exact congrArg (Prod.mk (some entry)) (s.withShelf_shelf k)

theorem row?_update_of_ne {mac : String} (s : Shelf k) (hmac : row.mac ≠ mac) :
    (s.update row).2.row? mac = s.row? mac := by
  have hfind (rows : List (Assignment k)) :
      (rows.map fun b => if b.mac = row.mac then row else b).find? (·.mac = mac) =
        rows.find? (·.mac = mac) := by
    induction rows with
    | nil => rfl
    | cons b rows ih =>
      by_cases hb : b.mac = row.mac
      · simpa [hb, hmac] using ih
      · by_cases hm : b.mac = mac
        · simp [hm, hmac.symm]
        · simpa [hb, hm] using ih
  exact hfind s.assignments

/-- After an update a device has its old row, or the new one if it is the device's. -/
theorem row?_update {j : Kind} {mac : String} {a : Assignment k}
    (h : (s.shelf k).row? mac = some a) (row : Assignment j) :
    (((s.update row).2.shelf k).row? mac = some a) ∨
      ∃ b : Assignment k, (⟨j, row⟩ : (i : Kind) × Assignment i) = ⟨k, b⟩ ∧
        ((s.update row).2.shelf k).row? mac = some b := by
  by_cases hj : j = k
  · subst hj
    rw [shelf_update]
    by_cases hmac : row.mac = mac
    · subst hmac
      exact .inr ⟨row, rfl, Shelf.row?_update_self h⟩
    · exact .inl (by rw [row?_update_of_ne _ hmac, h])
  · exact .inl (by rw [update, shelf_withShelf_of_ne s _ hj, h])

end Store
end FleetBoot
