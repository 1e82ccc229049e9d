import FleetBoot.Proofs.Store.Listing
import FleetBoot.Proofs.Store.Registration

/-! Changes that the database is asked for, one after the other. No table comes to have two rows of
one key, a row is refused exactly if its key is taken, every other change is to one row, and the
catalogs list what was added to them and has not been removed. -/
namespace FleetBoot

/-- What the database can be asked to change. -/
inductive Edit where
  | enter (call : Registration)
  | parameter (payloadId name : String) (value : Json)
  | insert {k : Kind} (row : Assignment k)
  | update {k : Kind} (row : Assignment k)
  | remove (key : ImageKey)

/-- What the database says to a change that it has made. -/
@[reducible] def Edit.Reply : Edit → Type
  | .update _ => Nat
  | .remove _ => Option Image
  | _ => Unit

namespace Store
variable {k : Kind} {s t : Store}

/-- The new database if there is one, and else the old. -/
def commit (s : Store) : Except StoreError Store → Except StoreError Unit × Store
  | .ok t => (.ok (), t)
  | .error e => (.error e, s)

/-- Makes a change, or says why not. -/
def edit (s : Store) : (e : Edit) → Except StoreError e.Reply × Store
  | .enter call => s.commit (s.enter call)
  | .parameter payloadId name value => (.ok (), s.setParameter payloadId name value)
  | .insert row => s.commit (s.insert row)
  | .update row =>
      let (changed, t) := s.update row
      (.ok changed, t)
  | .remove key =>
      let (image, t) := s.remove .image key
      (.ok image, t)

/-- The database after changes in this order. -/
def edited (s : Store) (edits : List Edit) : Store := edits.foldl (fun s e => (s.edit e).2) s

/-- A row is refused if its key is taken, and else it is added. -/
def Admits (s t : Store) (table : Table) (taken added : Prop) (x : Except StoreError Unit) : Prop :=
  taken ∧ x = .error (.occupied table) ∧ t = s ∨ ¬ taken ∧ x = .ok () ∧ added

/-- One network default more, and all else the same. -/
def AddsNetwork (s t : Store) (row : NetworkRow k) : Prop :=
  t = s.withShelf { s.shelf k with networks := (s.shelf k).networks ++ [row] }

/-- One parameter more, or one in the place of that of its payload and name, and all else the same.
-/
def SetsParameter (s t : Store) (p : Parameter) : Prop :=
  (∀ q ∈ s.parameters, (q.payloadId, q.name) ≠ (p.payloadId, p.name)) ∧
      t = { s with parameters := s.parameters ++ [p] } ∨
    ∃ before old after, s.parameters = before ++ old :: after ∧
      (old.payloadId, old.name) = (p.payloadId, p.name) ∧
      t = { s with parameters := before ++ p :: after }

end Store

/-- What becomes of a registration in the one database, and which database it leaves. A spelling
that names no block is refused before any key is looked at. -/
def Registration.Outcome (s t : Store) : Registration → Except StoreError Unit → Prop
  | @entry k e, x => s.Admits t (.catalog k)
      (∃ e' ∈ (s.shelf k).catalog, Kind.keyOf e' = Kind.keyOf e) (s.AddsEntry t e) x
  | .network d, x =>
      match Cidr.parse d.cidr with
      | .error malformed => x = .error (.invalidInput malformed.message) ∧ t = s
      | .ok cidr => ∃ (k : Kind) (key : k.Key), d.target.key? k = some key ∧
          s.Admits t (.networks k) (∃ n ∈ (s.shelf k).networks, n.subnet = cidr.text)
            (s.AddsNetwork t (⟨cidr.text, key⟩ : NetworkRow k)) x

namespace Edit
variable {k : Kind} {s t : Store}

/-- What is said to a change that is asked of the one database, and which database it leaves. -/
def Outcome (s t : Store) : (e : Edit) → Except StoreError e.Reply → Prop
  | .enter call, x => call.Outcome s t x
  | .parameter payloadId name value, x =>
      x = .ok () ∧ s.SetsParameter t ⟨payloadId, name, value.text⟩
  | @insert k row, x => s.Admits t (.assignments k)
      (∃ a ∈ (s.shelf k).assignments, a.mac = row.mac) (s.AddsRow t row) x
  | @update k row, x =>
      (∃ a ∈ (s.shelf k).assignments, a.mac = row.mac) ∧ x = .ok 1 ∧ s.ReplacesRow t row ∨
        (∀ a ∈ (s.shelf k).assignments, a.mac ≠ row.mac) ∧ x = .ok 0 ∧ t = s
  | .remove key, x =>
      (∃ image : Image, image.key = key ∧ x = .ok (some image) ∧
        s.RemovesEntry (k := .image) t image) ∨
      (∀ image ∈ s.images.catalog, image.key ≠ key) ∧ x = .ok none ∧ t = s

/-- The change takes the entry with this key out of the catalog, if it is there. -/
def Removes (k : Kind) (key : k.Key) : Edit → Prop
  | .remove gone => (⟨.image, gone⟩ : (j : Kind) × j.Key) = ⟨k, key⟩
  | _ => False

end Edit

namespace Store
variable {k : Kind} {s t : Store}

theorem commit_ok (s t : Store) : s.commit (.ok t) = (.ok (), t) := rfl

theorem commit_error (s : Store) (e : StoreError) : s.commit (.error e) = (.error e, s) := rfl

theorem AddsNetwork.keyed {row : NetworkRow k} (h : s.AddsNetwork t row)
    (hfree : ¬ ∃ n ∈ (s.shelf k).networks, n.subnet = row.subnet) (hs : s.Keyed) : t.Keyed := by
  subst h
  obtain ⟨hcatalog, hassignments, hnetworks⟩ := hs.shelf k
  have hnew : ∀ n ∈ (s.shelf k).networks, n.subnet ≠ row.subnet := by simpa using hfree
  exact hs.withShelf ⟨hcatalog, hassignments, nodup_keys_append hnetworks hnew⟩

theorem SetsParameter.keyed {p : Parameter} (h : s.SetsParameter t p) (hs : s.Keyed) : t.Keyed := by
  have hshelf (parameters : List Parameter) (k : Kind) :
      (Store.shelf { s with parameters := parameters } k).Keyed := by
    cases k
    · exact hs.shelf .payload
    · exact hs.shelf .image
  have hparameters := hs.parameters
  obtain ⟨hfree, rfl⟩ | ⟨before, old, after, hsplit, hkey, rfl⟩ := h
  · exact ⟨hshelf _, nodup_keys_append hparameters hfree⟩
  · rw [hsplit, List.map_append, List.map_cons, hkey] at hparameters
    refine ⟨hshelf _, ?_⟩
    rw [List.map_append, List.map_cons]
    exact hparameters

theorem enter_entry_outcome (s : Store) (e : k.Entry) :
    (Registration.entry e).Outcome s (s.commit (s.register e)).2 (s.commit (s.register e)).1 := by
  rcases s.register_cases e with ⟨htaken, hrefused⟩ | ⟨hfree, t, hok, hadds⟩
  · rw [hrefused, commit_error]
    exact .inl ⟨htaken, rfl, rfl⟩
  · rw [hok, commit_ok]
    exact .inr ⟨hfree, rfl, hadds⟩

theorem addNetworkRow_outcome (s : Store) (row : NetworkRow k) :
    s.Admits (s.commit (s.addNetworkRow row)).2 (.networks k)
      (∃ n ∈ (s.shelf k).networks, n.subnet = row.subnet)
      (s.AddsNetwork (s.commit (s.addNetworkRow row)).2 row) (s.commit (s.addNetworkRow row)).1 := by
  by_cases htaken : ∃ n ∈ (s.shelf k).networks, n.subnet = row.subnet
  · have hany : ((s.shelf k).networks.any fun n => n.subnet = row.subnet) = true := by
      simpa using htaken
    left
    simp only [addNetworkRow, Shelf.addNetwork, hany, if_true, Except.map, commit_error]
    exact ⟨htaken, trivial, trivial⟩
  · have hany : ((s.shelf k).networks.any fun n => n.subnet = row.subnet) = false := by
      simpa using htaken
    right
    simp only [addNetworkRow, Shelf.addNetwork, hany, Bool.false_eq_true, if_false, Except.map,
      commit_ok]
    exact ⟨htaken, trivial, rfl⟩

theorem enter_outcome (s : Store) (call : Registration) :
    call.Outcome s (s.commit (s.enter call)).2 (s.commit (s.enter call)).1 := by
  cases call with
  | entry e => exact s.enter_entry_outcome e
  | network d =>
    obtain ⟨cidr, target⟩ := d
    rw [Registration.Outcome]
    cases hc : Cidr.parse cidr with
    | error malformed =>
      simp only [enter, addNetworkDefault, hc, commit_error]
      exact ⟨trivial, trivial⟩
    | ok c =>
      cases target with
      | payload id =>
        simp only [enter, addNetworkDefault, hc]
        exact ⟨.payload, id, rfl, s.addNetworkRow_outcome _⟩
      | image key =>
        simp only [enter, addNetworkDefault, hc]
        exact ⟨.image, key, rfl, s.addNetworkRow_outcome _⟩

theorem setParameterText_sets (hs : s.Keyed) (payloadId name text : String) :
    s.SetsParameter (s.setParameterText payloadId name text) ⟨payloadId, name, text⟩ := by
  have hnames (p : Parameter) : Parameter.names p payloadId name =
      decide ((p.payloadId, p.name) = (payloadId, name)) := by
    simp [Parameter.names, Bool.decide_and]
  unfold setParameterText
  simp only [hnames, decide_eq_true_eq, List.any_eq_true]
  split
  · next htaken =>
    obtain ⟨old, hold, hkey⟩ := htaken
    obtain ⟨before, after, hsplit⟩ := List.append_of_mem hold
    have hnodup : ((before ++ old :: after).map fun p => (p.payloadId, p.name)).Nodup :=
      hsplit ▸ hs.parameters
    let new : Parameter := ⟨payloadId, name, text⟩
    have hnew : (old.payloadId, old.name) = (new.payloadId, new.name) := hkey
    refine .inr ⟨before, old, after, hsplit, hkey, ?_⟩
    rw [hsplit, ← map_replace_of_nodup hnew hnodup]
  · next hfree => exact .inl ⟨fun q hq hkey => hfree ⟨q, hq, hkey⟩, rfl⟩

theorem insert_outcome (s : Store) (row : Assignment k) :
    s.Admits (s.commit (s.insert row)).2 (.assignments k)
      (∃ a ∈ (s.shelf k).assignments, a.mac = row.mac)
      (s.AddsRow (s.commit (s.insert row)).2 row) (s.commit (s.insert row)).1 := by
  rcases s.insert_cases row with ⟨hnone, hi⟩ | ⟨⟨a, ha⟩, hi⟩
  · rw [hi, commit_ok]
    refine .inr ⟨?_, rfl, hnone, rfl⟩
    rintro ⟨a, ha, hmac⟩
    exact Shelf.row?_eq_none_iff.mp hnone a ha hmac
  · rw [hi, commit_error]
    exact .inl ⟨⟨a, List.mem_of_find?_eq_some ha, Shelf.mac_of_row? ha⟩, rfl, rfl⟩

theorem update_outcome (hs : (s.shelf k).Keyed) (row : Assignment k) :
    (∃ a ∈ (s.shelf k).assignments, a.mac = row.mac) ∧ (s.update row).1 = 1 ∧
        s.ReplacesRow (s.update row).2 row ∨
      (∀ a ∈ (s.shelf k).assignments, a.mac ≠ row.mac) ∧ s.update row = (0, s) := by
  cases hrow : (s.shelf k).row? row.mac with
  | none => exact .inr ⟨Shelf.row?_eq_none_iff.mp hrow, update_of_none hrow⟩
  | some old =>
    have hold := hs.row?_eq_some_iff.mp hrow
    refine .inl ⟨⟨old, hold⟩, ?_, replacesRow_update hs hrow⟩
    obtain ⟨before, after, hsplit⟩ := List.append_of_mem hold.1
    obtain ⟨hbefore, hafter⟩ := ne_of_nodup_keys (hsplit ▸ hs.assignments)
    have hnone (rows : List (Assignment k)) (h : ∀ a ∈ rows, a.mac ≠ old.mac) :
        rows.filter (fun a => a.mac = row.mac) = [] := by
      rw [← hold.2]
      simpa using h
    change ((s.shelf k).assignments.filter fun a => a.mac = row.mac).length = 1
    rw [hsplit, List.filter_append, List.filter_cons, hnone before hbefore, hnone after hafter]
    simp [hold.2]

/-- Every change comes out as its table says. -/
theorem edit_outcome (hs : s.Keyed) (e : Edit) : e.Outcome s (s.edit e).2 (s.edit e).1 := by
  cases e with
  | enter call => exact s.enter_outcome call
  | parameter payloadId name value =>
    exact ⟨rfl, setParameterText_sets hs payloadId name value.text⟩
  | insert row => exact s.insert_outcome row
  | update row =>
    apply (update_outcome (hs.shelf _) row).imp
    · rintro ⟨htaken, hone, hreplaces⟩
      exact ⟨htaken, congrArg Except.ok hone, hreplaces⟩
    · rintro ⟨hfree, hsame⟩
      exact ⟨hfree, congrArg (fun r : Nat × Store => Except.ok r.1) hsame, congrArg Prod.snd hsame⟩
  | remove key =>
    rcases s.remove_cases (hs.shelf .image) key with hnone | ⟨image, hfound, hkey, hremoves⟩
    · refine .inr ⟨?_, congrArg (fun r : Option Image × Store => Except.ok r.1) hnone,
        congrArg Prod.snd hnone⟩
      intro image hmem hkey
      have hl : (s.shelf .image).lookup? key = some image :=
        (hs.shelf .image).lookup?_eq_some_iff.mpr ⟨hmem, hkey⟩
      cases (remove_of_some hl).symm.trans hnone
    · exact .inl ⟨image, hkey, congrArg Except.ok hfound, hremoves⟩

end Store

namespace Edit
variable {k : Kind} {s t : Store} {e : Edit} {x : Except StoreError e.Reply}

/-- All that a change can do: nothing, or one thing to one table. -/
theorem Outcome.step_cases (h : e.Outcome s t x) :
    t = s ∨ (∃ (k : Kind) (entry : k.Entry), s.AddsEntry t entry) ∨
      (∃ (k : Kind) (c : Cidr) (key : k.Key), (¬ ∃ n ∈ (s.shelf k).networks, n.subnet = c.text) ∧
        s.AddsNetwork t (⟨c.text, key⟩ : NetworkRow k)) ∨
      (∃ (k : Kind) (row : Assignment k), s.AddsRow t row ∨ s.ReplacesRow t row) ∨
      (∃ image, s.RemovesEntry (k := .image) t image) ∨
      ∃ payloadId name value, e = .parameter payloadId name value ∧
        s.SetsParameter t ⟨payloadId, name, value.text⟩ := by
  cases e with
  | enter call =>
    cases call with
    | entry e =>
      rcases h with ⟨-, -, hsame⟩ | ⟨-, -, hadds⟩
      · exact .inl hsame
      · exact .inr (.inl ⟨_, e, hadds⟩)
    | network d =>
      rw [Outcome, Registration.Outcome] at h
      split at h
      · exact .inl h.2
      · obtain ⟨k, key, -, ⟨-, -, hsame⟩ | ⟨hfree, -, hadds⟩⟩ := h
        · exact .inl hsame
        · exact .inr (.inr (.inl ⟨k, _, key, hfree, hadds⟩))
  | parameter payloadId name value =>
    exact .inr (.inr (.inr (.inr (.inr ⟨payloadId, name, value, rfl, h.2⟩))))
  | insert row =>
    rcases h with ⟨-, -, hsame⟩ | ⟨-, -, hadds⟩
    · exact .inl hsame
    · exact .inr (.inr (.inr (.inl ⟨_, row, .inl hadds⟩)))
  | update row =>
    rcases h with ⟨-, -, hreplaces⟩ | ⟨-, -, hsame⟩
    · exact .inr (.inr (.inr (.inl ⟨_, row, .inr hreplaces⟩)))
    · exact .inl hsame
  | remove key =>
    rcases h with ⟨image, -, -, hremoves⟩ | ⟨-, -, hsame⟩
    · exact .inr (.inr (.inr (.inr (.inl ⟨image, hremoves⟩))))
    · exact .inl hsame

/-- Rows of one key stay apart from each other. -/
theorem Outcome.keyed (h : e.Outcome s t x) (hs : s.Keyed) : t.Keyed := by
  rcases h.step_cases with rfl | ⟨k, entry, hadds⟩ | ⟨k, c, key, hfree, hadds⟩ |
    ⟨k, row, hadds | hreplaces⟩ | ⟨image, hremoves⟩ | ⟨payloadId, name, value, -, hsets⟩
  · exact hs
  · exact hadds.keyed hs
  · exact hadds.keyed hfree hs
  · exact hadds.keyed hs
  · exact hreplaces.keyed hs
  · exact hremoves.keyed hs
  · exact hsets.keyed hs

/-- A change that fails leaves the database as it was. -/
theorem Outcome.eq_of_error {cause : StoreError} (h : e.Outcome s t (.error cause)) : t = s := by
  cases e with
  | enter call =>
    cases call with
    | entry e =>
      rcases h with ⟨-, -, rfl⟩ | ⟨-, hx, -⟩
      · rfl
      · cases hx
    | network d =>
      rw [Outcome, Registration.Outcome] at h
      split at h
      · exact h.2
      · obtain ⟨k, key, -, ⟨-, -, rfl⟩ | ⟨-, hx, -⟩⟩ := h
        · rfl
        · cases hx
  | parameter payloadId name value => cases h.1
  | insert row =>
    rcases h with ⟨-, -, rfl⟩ | ⟨-, hx, -⟩
    · rfl
    · cases hx
  | update row =>
    rcases h with ⟨-, hx, -⟩ | ⟨-, hx, -⟩ <;> cases hx
  | remove key =>
    rcases h with ⟨image, -, hx, -⟩ | ⟨-, hx, -⟩ <;> cases hx

end Edit

end FleetBoot
