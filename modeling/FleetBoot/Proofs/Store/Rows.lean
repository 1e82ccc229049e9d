import FleetBoot.Store.Basic

/-! The row of a device: what queries find, and what inserts and updates leave. -/
namespace FleetBoot

namespace Shelf
variable {k : Kind} {s : Shelf k} {row a : Assignment k} {mac : String}

theorem row?_eq_none_iff : s.row? mac = none ↔ ∀ a ∈ s.assignments, a.mac ≠ mac := by
  simp [row?]

theorem mac_of_row? (h : s.row? mac = some a) : a.mac = mac := by
  simpa using List.find?_some h

/-- With a further row at the end. -/
def withRow (s : Shelf k) (row : Assignment k) : Shelf k :=
  { s with assignments := s.assignments ++ [row] }

@[simp] theorem withRow_catalog : (s.withRow row).catalog = s.catalog := rfl

@[simp] theorem withRow_networks : (s.withRow row).networks = s.networks := rfl

@[simp] theorem withRow_assignments : (s.withRow row).assignments = s.assignments ++ [row] := rfl

theorem row?_withRow (h : s.row? row.mac = none) :
    (s.withRow row).row? mac = if row.mac = mac then some row else s.row? mac := by
  by_cases hm : row.mac = mac
  · subst hm
    simp only [row?] at h
    simp [row?, h]
  · simp [row?, hm]

theorem insert_of_none (h : s.row? row.mac = none) : s.insert row = .ok (s.withRow row) := by
  simp only [insert, h, withRow]

theorem insert_of_some (h : s.row? row.mac = some a) :
    s.insert row = .error (.occupied (.assignments k)) := by
  simp only [insert, h]

@[simp] theorem update_catalog : (s.update row).2.catalog = s.catalog := rfl

@[simp] theorem update_networks : (s.update row).2.networks = s.networks := rfl

theorem update_pos_iff : 0 < (s.update row).1 ↔ ∃ a, s.row? row.mac = some a := by
  simp [update, List.length_pos_iff, row?, ← Option.isSome_iff_exists]

theorem update_of_none (h : s.row? row.mac = none) : s.update row = (0, s) := by
  have hne := row?_eq_none_iff.mp h
  have hmap : s.assignments.map (fun a => if a.mac = row.mac then row else a) = s.assignments :=
    (List.map_congr_left fun a ha => if_neg (hne a ha)).trans (List.map_id _)
  have hfilter : s.assignments.filter (fun a => a.mac = row.mac) = [] := by simpa using hne
  simp only [update, hmap, hfilter, List.length_nil]

theorem row?_update_self (h : s.row? row.mac = some a) :
    (s.update row).2.row? row.mac = some row := by
  have hfind (rows : List (Assignment k)) (hr : rows.find? (·.mac = row.mac) = some a) :
      (rows.map fun b => if b.mac = row.mac then row else b).find? (·.mac = row.mac) =
        some row := by
    induction rows with
    | nil => simp at hr
    | cons b rows ih =>
      by_cases hb : b.mac = row.mac
      · simp [hb]
      · simpa [hb] using ih (by simpa [hb] using hr)
  exact hfind s.assignments h

theorem mem_update (h : a ∈ (s.update row).2.assignments) : a = row ∨ a ∈ s.assignments := by
  obtain ⟨b, hb, hab⟩ := List.mem_map.mp h
  split at hab
  · exact .inl hab.symm
  · exact .inr (hab ▸ hb)

/-- Of an address the first row is found, and no other. -/
theorem find_mac (s : Shelf k) (mac : String) :
    s.find (.mac mac) 1 = ((s.row? mac).map s.hydrate).toList := by
  have hfinds : (fun a : Assignment k => Identity.finds (.mac mac) a.mac) =
      fun a => decide (a.mac = mac) := by
    funext a
    simp [Identity.finds, eq_comm, Bool.beq_eq_decide_eq]
  have hsorted : (s.assignments.filter fun a => a.mac = mac).Pairwise
      fun a b => macLe a b = true := by
    refine List.Pairwise.imp_of_mem (R := fun _ _ => True) ?_
      (List.pairwise_of_forall fun _ _ => trivial)
    intro a b ha hb _
    have ha : a.mac = mac := by simpa using (List.mem_filter.mp ha).2
    have hb : b.mac = mac := by simpa using (List.mem_filter.mp hb).2
    simp [macLe, ha, hb]
  rw [find, hfinds, List.mergeSort_of_pairwise hsorted, List.map_take, List.take_one]
  simp [row?]

theorem mem_find {r : StoredRow k} {identity : Identity} {limit : Nat}
    (h : r ∈ s.find identity limit) : r.row ∈ s.assignments ∧ identity.finds r.row.mac := by
  obtain ⟨a, ha, rfl⟩ := List.mem_map.mp h
  exact List.mem_filter.mp (List.mem_mergeSort.mp (List.mem_of_mem_take ha))

theorem keyOf_of_lookup? {key : k.Key} {e : k.Entry} (h : s.lookup? key = some e) :
    Kind.keyOf e = key := by
  simpa using List.find?_some h

theorem exists_lookup?_iff {key : k.Key} :
    (∃ e, s.lookup? key = some e) ↔ ∃ e ∈ s.catalog, Kind.keyOf e = key := by
  rw [lookup?, ← Option.isSome_iff_exists, List.find?_isSome]
  simp

theorem mem_available {key : k.Key} : key ∈ s.available ↔ ∃ e, s.lookup? key = some e := by
  rw [available, List.mem_mergeSort, List.mem_map, exists_lookup?_iff]

theorem longer_eq_some {α : Type} {best : Option (Nat × α)} {b c : Nat × α}
    (h : longer best c = some b) : best = some b ∨ b = c := by
  unfold longer at h
  split at h
  · split at h
    · exact .inl h
    · exact .inr (Option.some.inj h).symm
  · exact .inr (Option.some.inj h).symm

theorem foldl_longer {α : Type} {best : Option (Nat × α)} {blocks : List (Nat × α)} {b : Nat × α}
    (h : blocks.foldl longer best = some b) : best = some b ∨ b ∈ blocks := by
  induction blocks generalizing best with
  | nil => exact .inl h
  | cons c blocks ih =>
    rcases ih h with hb | hb
    · rcases longer_eq_some hb with hb | rfl
      · exact .inl hb
      · exact .inr List.mem_cons_self
    · exact .inr (List.mem_cons_of_mem c hb)

/-- What a network is given stands in the catalog. -/
theorem lookup?_networkDefault {ip : Address} {e : k.Entry} (h : s.networkDefault ip = some e) :
    s.lookup? (Kind.keyOf e) = some e := by
  obtain ⟨⟨n, e'⟩, hb, rfl⟩ := Option.map_eq_some_iff.mp h
  rcases foldl_longer hb with hb | hb
  · cases hb
  · obtain ⟨row, -, hrow⟩ := List.mem_filterMap.mp hb
    simp only [covering, bind, Option.bind_eq_some_iff] at hrow
    obtain ⟨e'', he, cidr, -, hc⟩ := hrow
    split at hc
    · cases hc
      rw [keyOf_of_lookup? he, he]
    · cases hc

section Congruence
variable {k : Kind} {s t : Shelf k} {owns : String → Bool}

theorem lookup?_congr (h : s.catalog = t.catalog) (key : k.Key) : s.lookup? key = t.lookup? key := by
  rw [lookup?, lookup?, h]

theorem networkDefault_congr (hcatalog : s.catalog = t.catalog) (hnetworks : s.networks = t.networks)
    (ip : Address) : s.networkDefault ip = t.networkDefault ip := by
  have hcovering : s.covering ip = t.covering ip := by
    funext row
    simp only [covering, lookup?_congr hcatalog]
  rw [networkDefault, networkDefault, hcovering, hnetworks]

/-- Where the rows of some devices agree, so do those of fewer devices. -/
theorem filter_congr_of_imp (fewer owns : String → Bool) {rows rows' : List (Assignment k)}
    (hrows : rows.filter (owns ·.mac) = rows'.filter (owns ·.mac))
    (hfewer : ∀ mac, fewer mac = true → owns mac = true) :
    rows.filter (fewer ·.mac) = rows'.filter (fewer ·.mac) := by
  have hsub (rows : List (Assignment k)) :
      (rows.filter (owns ·.mac)).filter (fewer ·.mac) = rows.filter (fewer ·.mac) := by
    rw [List.filter_filter]
    apply List.filter_congr
    intro a _
    cases h : fewer a.mac with
    | true => simp [hfewer a.mac h]
    | false => simp
  rw [← hsub rows, hrows, hsub]

/-- A query that finds rows of some devices only goes by their rows. -/
theorem find_congr (hcatalog : s.catalog = t.catalog)
    (hrows : s.assignments.filter (owns ·.mac) = t.assignments.filter (owns ·.mac))
    {identity : Identity} (hfinds : ∀ mac, identity.finds mac = true → owns mac = true)
    (limit : Nat) : s.find identity limit = t.find identity limit := by
  have hhydrate : s.hydrate = t.hydrate := by
    funext row
    rw [hydrate, hydrate, lookup?_congr hcatalog]
  rw [find, find, filter_congr_of_imp _ owns hrows hfinds, hhydrate]

theorem filter_mac_congr
    (hrows : s.assignments.filter (owns ·.mac) = t.assignments.filter (owns ·.mac)) {mac : String}
    (hmac : owns mac = true) :
    s.assignments.filter (fun a => a.mac = mac) = t.assignments.filter (fun a => a.mac = mac) := by
  apply filter_congr_of_imp (fun other => decide (other = mac)) owns hrows
  intro other hother
  rwa [of_decide_eq_true hother]

theorem row?_congr (hrows : s.assignments.filter (owns ·.mac) = t.assignments.filter (owns ·.mac))
    {mac : String} (hmac : owns mac = true) : s.row? mac = t.row? mac := by
  rw [row?, row?, ← List.head?_filter, ← List.head?_filter, filter_mac_congr hrows hmac]

/-- An update keeps rows of some devices apart from the others. -/
theorem filter_update (s : Shelf k) (row : Assignment k) (owns : String → Bool) :
    (s.update row).2.assignments.filter (owns ·.mac) =
      (s.assignments.filter (owns ·.mac)).map fun a => if a.mac = row.mac then row else a := by
  change (s.assignments.map _).filter _ = _
  rw [List.filter_map]
  congr 2
  funext a
  change owns (if a.mac = row.mac then row else a).mac = owns a.mac
  split
  · next h => rw [h]
  · rfl

/-- It leaves the rows of others as they are. -/
theorem filter_update_of_not (s : Shelf k) {row : Assignment k} (hmac : owns row.mac = true) :
    (s.update row).2.assignments.filter (!owns ·.mac) = s.assignments.filter (!owns ·.mac) := by
  rw [filter_update s row fun mac => !owns mac]
  apply (List.map_congr_left fun a ha => if_neg ?_).trans (List.map_id _)
  intro heq
  simp [heq, hmac] at ha

end Congruence

end Shelf

namespace Store
variable {k : Kind} {s : Store} {row : Assignment k} {a : Assignment k}

theorem insert_of_none (h : (s.shelf k).row? row.mac = none) :
    s.insert row = .ok (s.withShelf ((s.shelf k).withRow row)) := by
  simp only [insert, Shelf.insert_of_none h, Except.map]

theorem insert_of_some (h : (s.shelf k).row? row.mac = some a) :
    s.insert row = .error (.occupied (.assignments k)) := by
  simp only [insert, Shelf.insert_of_some h, Except.map]

theorem insert_cases (s : Store) (row : Assignment k) :
    (s.shelf k).row? row.mac = none ∧
        s.insert row = .ok (s.withShelf ((s.shelf k).withRow row)) ∨
      (∃ a, (s.shelf k).row? row.mac = some a) ∧
        s.insert row = .error (.occupied (.assignments k)) := by
  cases h : (s.shelf k).row? row.mac with
  | none => exact .inl ⟨rfl, insert_of_none h⟩
  | some a => exact .inr ⟨⟨a, rfl⟩, insert_of_some h⟩

theorem update_of_none (h : (s.shelf k).row? row.mac = none) : s.update row = (0, s) := by
  simp only [update, Shelf.update_of_none h, withShelf_shelf]

@[simp] theorem shelf_update (s : Store) (row : Assignment k) :
    (s.update row).2.shelf k = ((s.shelf k).update row).2 := shelf_withShelf s _

theorem update_pos_iff : 0 < (s.update row).1 ↔ ∃ a, (s.shelf k).row? row.mac = some a :=
  Shelf.update_pos_iff

theorem register_of_none {e : k.Entry} (h : (s.shelf k).lookup? (Kind.keyOf e) = none) :
    s.register e =
      .ok (s.withShelf { s.shelf k with catalog := (s.shelf k).catalog ++ [e] }) := by
  simp only [register, Shelf.register, h, Except.map]

theorem register_of_some {e old : k.Entry} (h : (s.shelf k).lookup? (Kind.keyOf e) = some old) :
    s.register e = .error (.occupied (.catalog k)) := by
  simp only [register, Shelf.register, h, Except.map]

theorem remove_of_none {key : k.Key} (h : (s.shelf k).lookup? key = none) :
    s.remove k key = (none, s) := by
  simp only [remove, h]

theorem remove_of_some {key : k.Key} {e : k.Entry} (h : (s.shelf k).lookup? key = some e) :
    s.remove k key = (some e, s.withShelf ((s.shelf k).remove key)) := by
  simp only [remove, h]

/-- What a shelf that is put back has as it was, all shelves have as it was. -/
theorem part_withShelf {α : Kind → Type} (part : {k : Kind} → Shelf k → α k) (s : Store) {j : Kind}
    (shelf : Shelf j) (h : part shelf = part (s.shelf j)) (k : Kind) :
    part ((s.withShelf shelf).shelf k) = part (s.shelf k) := by
  by_cases hj : j = k
  · subst hj
    rw [shelf_withShelf, h]
  · rw [shelf_withShelf_of_ne s shelf hj]

/-- A shelf that is put back with the rows it had leaves all rows as they were. -/
theorem assignments_withShelf (s : Store) {j : Kind} (shelf : Shelf j)
    (h : shelf.assignments = (s.shelf j).assignments) (k : Kind) :
    ((s.withShelf shelf).shelf k).assignments = (s.shelf k).assignments :=
  s.part_withShelf Shelf.assignments shelf h k

theorem assignments_register {j : Kind} {entry : j.Entry} {t : Store}
    (h : s.register entry = .ok t) (k : Kind) :
    (t.shelf k).assignments = (s.shelf k).assignments := by
  cases hl : (s.shelf j).lookup? (Kind.keyOf entry) with
  | some old => cases (register_of_some hl).symm.trans h
  | none =>
    cases (register_of_none hl).symm.trans h
    apply s.assignments_withShelf
    rfl

theorem assignments_remove (s : Store) {j : Kind} (key : j.Key) (k : Kind) :
    ((s.remove j key).2.shelf k).assignments = (s.shelf k).assignments := by
  unfold remove
  split
  · exact s.assignments_withShelf ((s.shelf j).remove key) rfl k
  · rfl

end Store
end FleetBoot
