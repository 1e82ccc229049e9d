import FleetBoot.Proofs.Plan.Deadline

/-! Plans that keep to a part of the database. What a plan reads of its part settles what it does
there, and it leaves the other parts alone, so that plans of parts that are apart can trade places.
-/
namespace FleetBoot

/-- A part of one shelf: the rows of some devices, and where `entries` says so the catalog as far as
it may change. All of the shelf's catalog and networks may be read. -/
structure Scope where
  kind : Kind
  owns : String → Bool
  entries : Bool

namespace Scope

/-- The same within the scope: what plans read there, and the objects. -/
structure Agree (σ : Scope) (v w : World) : Prop where
  objects : v.objects.Alike w.objects
  landings : v.landings = w.landings
  catalog : (v.store.shelf σ.kind).catalog = (w.store.shelf σ.kind).catalog
  networks : (v.store.shelf σ.kind).networks = (w.store.shelf σ.kind).networks
  rows : (v.store.shelf σ.kind).assignments.filter (σ.owns ·.mac) =
    (w.store.shelf σ.kind).assignments.filter (σ.owns ·.mac)

/-- The same but for what the scope may change. -/
structure Spares (σ : Scope) (v w : World) : Prop where
  objects : v.objects.Alike w.objects
  landings : v.landings = w.landings
  others : ∀ k, k ≠ σ.kind → v.store.shelf k = w.store.shelf k
  parameters : v.store.parameters = w.store.parameters
  catalog : σ.entries = false →
    (v.store.shelf σ.kind).catalog = (w.store.shelf σ.kind).catalog
  networks : (v.store.shelf σ.kind).networks = (w.store.shelf σ.kind).networks
  rows : (v.store.shelf σ.kind).assignments.filter (!σ.owns ·.mac) =
    (w.store.shelf σ.kind).assignments.filter (!σ.owns ·.mac)

/-- Neither scope can change what the other one reads. -/
def Apart (σ τ : Scope) : Prop :=
  σ.kind ≠ τ.kind ∨
    σ.entries = false ∧ τ.entries = false ∧ ∀ mac, σ.owns mac = true → τ.owns mac = false

variable {σ τ : Scope} {u v w : World}

theorem Apart.symm (h : σ.Apart τ) : τ.Apart σ := by
  rcases h with hkind | ⟨hσ, hτ, howns⟩
  · exact .inl hkind.symm
  · refine .inr ⟨hτ, hσ, fun mac hmac => ?_⟩
    cases h : σ.owns mac with
    | false => rfl
    | true => exact (howns mac h).symm.trans hmac |>.symm

theorem agree_of_alike (h : v.Alike w) : σ.Agree v w where
  objects := h.objects
  landings := h.landings
  catalog := by rw [h.store]
  networks := by rw [h.store]
  rows := by rw [h.store]

theorem Agree.trans (h : σ.Agree u v) (h' : σ.Agree v w) : σ.Agree u w where
  objects := h.objects.trans h'.objects
  landings := h.landings.trans h'.landings
  catalog := h.catalog.trans h'.catalog
  networks := h.networks.trans h'.networks
  rows := h.rows.trans h'.rows

theorem Agree.symm (h : σ.Agree v w) : σ.Agree w v where
  objects := h.objects.symm
  landings := h.landings.symm
  catalog := h.catalog.symm
  networks := h.networks.symm
  rows := h.rows.symm

theorem spares_of_alike (h : v.Alike w) : σ.Spares v w where
  objects := h.objects
  landings := h.landings
  others k _ := by rw [h.store]
  parameters := by rw [h.store]
  catalog _ := by rw [h.store]
  networks := by rw [h.store]
  rows := by rw [h.store]

theorem Spares.trans (h : σ.Spares u v) (h' : σ.Spares v w) : σ.Spares u w where
  objects := h.objects.trans h'.objects
  landings := h.landings.trans h'.landings
  others k hk := (h.others k hk).trans (h'.others k hk)
  parameters := h.parameters.trans h'.parameters
  catalog hentries := (h.catalog hentries).trans (h'.catalog hentries)
  networks := h.networks.trans h'.networks
  rows := h.rows.trans h'.rows

/-- What spares all but one scope does not show in a scope apart from it. -/
theorem Spares.agree (h : σ.Spares v w) (hapart : σ.Apart τ) : τ.Agree v w := by
  by_cases hkind : τ.kind = σ.kind
  · obtain ⟨kind, owns, entries⟩ := τ
    subst hkind
    obtain ⟨hentries, -, howns⟩ := hapart.resolve_left (· rfl)
    refine ⟨h.objects, h.landings, h.catalog hentries, h.networks, ?_⟩
    apply Shelf.filter_congr_of_imp owns (fun mac => !σ.owns mac) h.rows
    intro mac hmac
    cases hσ : σ.owns mac with
    | true => cases (howns mac hσ).symm.trans hmac
    | false => rfl
  · have hshelf := h.others τ.kind hkind
    refine ⟨h.objects, h.landings, ?_, ?_, ?_⟩ <;> rw [hshelf]

/-- Putting back the shelf with another part of the scope spares the rest. -/
theorem spares_withShelf (w : World) (shelf : Shelf σ.kind)
    (hcatalog : σ.entries = false → shelf.catalog = (w.store.shelf σ.kind).catalog)
    (hnetworks : shelf.networks = (w.store.shelf σ.kind).networks)
    (hrows : shelf.assignments.filter (!σ.owns ·.mac) =
      (w.store.shelf σ.kind).assignments.filter (!σ.owns ·.mac)) :
    σ.Spares { w with store := w.store.withShelf shelf } w where
  objects := .refl _
  landings := rfl
  others k hk := Store.shelf_withShelf_of_ne _ shelf hk.symm
  parameters := Store.parameters_withShelf _ shelf
  catalog hentries := by simpa using hcatalog hentries
  networks := by simpa using hnetworks
  rows := by simpa using hrows

end Scope

/-- The call reads and changes nothing but what is in the scope. -/
def Call.Confined (σ : Scope) : Call → Prop
  | .find k identity _ => k = σ.kind ∧ ∀ mac, identity.finds mac = true → σ.owns mac = true
  | .networkDefault k _ | .available k => k = σ.kind
  | .definition _ => σ.kind = .payload
  | @insert k row | @update k row => k = σ.kind ∧ σ.owns row.mac = true
  | .create _ | .delete _ => σ.kind = .image ∧ σ.entries = true
  | .parameters _ => False
  | .presign _ | .fetch _ _ => True

theorem Call.OnObjects.confined {c : Call} (h : c.OnObjects) (σ : Scope) : c.Confined σ := by
  cases c <;> first | exact h | exact h.elim

namespace Scope
variable {σ : Scope} {v w : World} {c : Call}

theorem agree_withShelf (h : σ.Agree v w) {shelf shelf' : Shelf σ.kind}
    (hcatalog : shelf.catalog = shelf'.catalog) (hnetworks : shelf.networks = shelf'.networks)
    (hrows : shelf.assignments.filter (σ.owns ·.mac) = shelf'.assignments.filter (σ.owns ·.mac)) :
    σ.Agree { v with store := v.store.withShelf shelf }
      { w with store := w.store.withShelf shelf' } where
  objects := h.objects
  landings := h.landings
  catalog := by simpa using hcatalog
  networks := by simpa using hnetworks
  rows := by simpa using hrows

/-- Worlds that agree answer a call alike, and agree after it. -/
theorem Agree.perform (h : σ.Agree v w) (hc : c.Confined σ) :
    (v.perform c).1 = (w.perform c).1 ∧ σ.Agree (v.perform c).2 (w.perform c).2 := by
  cases c with
  | find k identity limit =>
    obtain ⟨rfl, hfinds⟩ := hc
    exact ⟨congrArg Except.ok (Shelf.find_congr h.catalog h.rows hfinds limit), h⟩
  | networkDefault k ip =>
    cases hc
    exact ⟨congrArg Except.ok (Shelf.networkDefault_congr h.catalog h.networks ip), h⟩
  | definition id =>
    obtain ⟨kind, owns, entries⟩ := σ
    cases hc
    exact ⟨congrArg Except.ok (Shelf.lookup?_congr h.catalog id), h⟩
  | available k =>
    cases hc
    have hsame : (v.store.shelf σ.kind).available = (w.store.shelf σ.kind).available := by
      rw [Shelf.available, Shelf.available, h.catalog]
    exact ⟨congrArg Except.ok hsame, h⟩
  | @insert k row =>
    obtain ⟨rfl, hmac⟩ := hc
    have hrow := Shelf.row?_congr h.rows hmac
    rcases w.store.insert_cases row with ⟨hnone, hw⟩ | ⟨⟨a, ha⟩, hw⟩
    · have hv := Store.insert_of_none (hrow.trans hnone)
      simp only [World.perform, hv, hw, World.commit, true_and]
      apply agree_withShelf h
      · exact h.catalog
      · exact h.networks
      · simp only [Shelf.withRow_assignments, List.filter_append, h.rows]
    · have hv := Store.insert_of_some (hrow.trans ha)
      simp only [World.perform, hv, hw, World.commit, true_and]
      exact h
  | @update k row =>
    obtain ⟨rfl, hmac⟩ := hc
    constructor
    · have hcount := congrArg List.length (Shelf.filter_mac_congr h.rows hmac)
      exact congrArg Except.ok hcount
    · apply agree_withShelf h
      · exact h.catalog
      · exact h.networks
      · have hv := (v.store.shelf σ.kind).filter_update row σ.owns
        have hw := (w.store.shelf σ.kind).filter_update row σ.owns
        rw [h.rows] at hv
        exact hv.trans hw.symm
  | parameters id => exact hc.elim
  | create image =>
    obtain ⟨kind, owns, entries⟩ := σ
    obtain ⟨hkind, -⟩ := hc
    cases hkind
    have hlookup : (v.store.shelf .image).lookup? (Kind.keyOf (k := .image) image) =
        (w.store.shelf .image).lookup? (Kind.keyOf (k := .image) image) :=
      Shelf.lookup?_congr h.catalog _
    cases hw : (w.store.shelf .image).lookup? (Kind.keyOf (k := .image) image) with
    | none =>
      simp only [World.perform, Store.register_of_none hw,
        Store.register_of_none (hlookup.trans hw), World.commit, true_and]
      apply agree_withShelf h
      · exact congrArg (· ++ [image]) h.catalog
      · exact h.networks
      · exact h.rows
    | some old =>
      simp only [World.perform, Store.register_of_some hw,
        Store.register_of_some (hlookup.trans hw), World.commit, true_and]
      exact h
  | delete key =>
    obtain ⟨kind, owns, entries⟩ := σ
    obtain ⟨hkind, -⟩ := hc
    cases hkind
    have hlookup : (v.store.shelf .image).lookup? key = (w.store.shelf .image).lookup? key :=
      Shelf.lookup?_congr h.catalog key
    cases hw : (w.store.shelf .image).lookup? key with
    | none =>
      simp only [World.perform, Store.remove_of_none hw,
        Store.remove_of_none (hlookup.trans hw), true_and]
      exact h
    | some old =>
      simp only [World.perform, Store.remove_of_some hw,
        Store.remove_of_some (hlookup.trans hw), true_and]
      apply agree_withShelf h
      · exact congrArg (List.filter fun e : Image => e.key ≠ key) h.catalog
      · exact h.networks
      · exact h.rows
  | presign signing =>
    refine ⟨h.objects.presign signing, ⟨h.objects.objects, h.objects.failing⟩, ?_, ?_, ?_, ?_⟩
    · exact h.landings
    · exact h.catalog
    · exact h.networks
    · exact h.rows
  | fetch bucket key =>
    refine ⟨h.objects.fetch bucket key, ⟨h.objects.objects, h.objects.failing⟩, ?_, ?_, ?_, ?_⟩
    · exact h.landings
    · exact h.catalog
    · exact h.networks
    · exact h.rows

/-- A call of the scope spares the rest. -/
theorem spares_perform (w : World) (hc : c.Confined σ) : σ.Spares (w.perform c).2 w := by
  by_cases hreads : c.Reads
  · exact spares_of_alike (World.perform_alike hreads w)
  cases c with
  | @insert k row =>
    obtain ⟨rfl, hmac⟩ := hc
    rcases w.store.insert_cases row with ⟨-, hw⟩ | ⟨-, hw⟩
    · simp only [World.perform, hw, World.commit]
      apply spares_withShelf
      · exact fun _ => rfl
      · rfl
      · simp [List.filter_append, hmac]
    · simp only [World.perform, hw, World.commit]
      exact spares_of_alike (.refl w)
  | @update k row =>
    obtain ⟨rfl, hmac⟩ := hc
    apply spares_withShelf
    · exact fun _ => rfl
    · rfl
    · exact Shelf.filter_update_of_not _ hmac
  | create image =>
    obtain ⟨kind, owns, entries⟩ := σ
    obtain ⟨hkind, hentries⟩ := hc
    cases hkind
    cases hw : (w.store.shelf .image).lookup? (Kind.keyOf (k := .image) image) with
    | none =>
      simp only [World.perform, Store.register_of_none hw, World.commit]
      apply spares_withShelf
      · intro hfixed
        cases hfixed.symm.trans hentries
      · rfl
      · rfl
    | some old =>
      simp only [World.perform, Store.register_of_some hw, World.commit]
      exact spares_of_alike (.refl w)
  | delete key =>
    obtain ⟨kind, owns, entries⟩ := σ
    obtain ⟨hkind, hentries⟩ := hc
    cases hkind
    cases hw : (w.store.shelf .image).lookup? key with
    | none =>
      simp only [World.perform, Store.remove_of_none hw]
      exact spares_of_alike (.refl w)
    | some old =>
      simp only [World.perform, Store.remove_of_some hw]
      apply spares_withShelf
      · intro hfixed
        cases hfixed.symm.trans hentries
      · rfl
      · rfl
  | _ => exact absurd trivial hreads

end Scope
end FleetBoot
