import FleetBoot.Proofs.Canonical
import FleetBoot.Proofs.Plan.Rows
import FleetBoot.Proofs.Store.Registration

/-! Rows that point at something: their addresses are canonical, and their keys are those of catalog
entries or need none. Which changes to the database keep all rows so, and what rows may point at. -/
namespace FleetBoot

/-- The keys that rows may have whatever the catalogs have. -/
abbrev Keys := (k : Kind) → k.Key → Prop

namespace Store
variable {free : Keys} {j k : Kind} {s t u : Store}

/-- The key is free, or that of an entry of the catalog. -/
def Backs (s : Store) (free : Keys) (k : Kind) (key : k.Key) : Prop :=
  free k key ∨ ∃ e ∈ (s.shelf k).catalog, Kind.keyOf e = key

/-- The row is that of a canonical address and has a key that is backed. -/
structure Grounds (s : Store) (free : Keys) (row : Assignment k) : Prop where
  mac : CanonicalMac row.mac
  key : s.Backs free k row.key

def Grounded (s : Store) (free : Keys) : Prop :=
  ∀ k, ∀ row ∈ (s.shelf k).assignments, s.Grounds free row

/-- What one database backs the other one backs too. -/
def Grows (free : Keys) (s t : Store) : Prop :=
  ∀ k key, s.Backs free k key → t.Backs free k key

theorem Grows.refl (s : Store) : s.Grows free s := fun _ _ => id

theorem Grows.trans (h : s.Grows free t) (h' : t.Grows free u) : s.Grows free u :=
  fun k key hk => h' k key (h k key hk)

theorem Grounds.mono {row : Assignment k} (h : s.Grounds free row) (hst : s.Grows free t) :
    t.Grounds free row := ⟨h.mac, hst k row.key h.key⟩

theorem grows_of_catalog (h : ∀ k, (s.shelf k).catalog ⊆ (t.shelf k).catalog) :
    s.Grows free t := by
  rintro k key (hfree | ⟨e, he, hkey⟩)
  · exact .inl hfree
  · exact .inr ⟨e, h k he, hkey⟩

theorem Grounded.of_rows (h : s.Grounded free) (hst : s.Grows free t)
    (hrows : ∀ k, (t.shelf k).assignments = (s.shelf k).assignments) : t.Grounded free :=
  fun k row hrow => (h k row (hrows k ▸ hrow)).mono hst

/-- Both a new row and one in the place of another leave the catalogs as they are. -/
theorem grows_withShelf {shelf : Shelf k} (h : shelf.catalog = (s.shelf k).catalog) :
    s.Grows free (s.withShelf shelf) := by
  refine grows_of_catalog fun j => ?_
  by_cases hj : k = j
  · subst hj
    rw [shelf_withShelf, h]
    exact List.Subset.refl _
  · rw [shelf_withShelf_of_ne s shelf hj]
    exact List.Subset.refl _

theorem grows_land (s : Store) (l : Landing) : s.Grows free (s.land l) := by
  obtain ⟨k, row, due⟩ := l
  rcases s.land_cases row due with hsame | ⟨-, hadds⟩
  · rw [hsame]
    exact .refl s
  · rw [hadds]
    exact grows_withShelf rfl

theorem Grounded.land (h : s.Grounded free) {l : Landing} (hl : s.Grounds free l.row) :
    (s.land l).Grounded free := by
  obtain ⟨j, row, due⟩ := l
  intro k a ha
  apply Grounds.mono _ (s.grows_land ⟨j, row, due⟩)
  rcases s.land_cases row due with hsame | ⟨-, hadds⟩
  · rw [hsame] at ha
    exact h k a ha
  · rw [hadds] at ha
    by_cases hj : j = k
    · subst hj
      rw [shelf_withShelf, Shelf.withRow_assignments, List.mem_append, List.mem_singleton] at ha
      rcases ha with ha | rfl
      · exact h j a ha
      · exact hl
    · rw [shelf_withShelf_of_ne s _ hj] at ha
      exact h k a ha

/-- An update leaves addresses as they are, so that nothing is asked of its own. -/
theorem Grounded.update (h : s.Grounded free) {row : Assignment j} (hkey : s.Backs free j row.key) :
    (s.update row).2.Grounded free := by
  have hgrows : s.Grows free (s.update row).2 := grows_withShelf rfl
  intro k a ha
  apply Grounds.mono _ hgrows
  by_cases hj : j = k
  · subst hj
    rw [shelf_update] at ha
    obtain ⟨b, hb, hba⟩ := List.mem_map.mp ha
    split at hba
    · next hmac =>
      subst hba
      exact ⟨hmac ▸ (h j b hb).mac, hkey⟩
    · exact hba ▸ h j b hb
  · rw [Store.update, shelf_withShelf_of_ne s _ hj] at ha
    exact h k a ha

theorem grows_enter {c : Registration} (h : s.enter c = .ok t) : s.Grows free t := by
  refine grows_of_catalog fun k => ?_
  rw [(enter_ok h).2.1 k]
  exact List.subset_append_left _ _

theorem Grounded.enter (h : s.Grounded free) {c : Registration} (ht : s.enter c = .ok t) :
    t.Grounded free :=
  h.of_rows (grows_enter ht) fun k => by rw [(enter_ok ht).2.1 k, Shelf.entered]

/-- An entry may leave the catalog where rows need none. -/
theorem grows_remove (hfree : ∀ key, free k key) (key : k.Key) :
    s.Grows free (s.remove k key).2 := by
  intro j other hother
  by_cases hj : k = j
  · subst hj
    exact .inl (hfree other)
  · unfold remove
    split
    · rwa [Backs, shelf_withShelf_of_ne s _ hj]
    · exact hother

end Store

namespace Call
variable {free : Keys} {s t : Store}

/-- The call writes no row but one that points at something, and takes no entry away but where rows
need none. -/
def Grounded (free : Keys) (s : Store) : Call → Prop
  | .insert row => s.Grounds free row
  | @update k row => s.Backs free k row.key
  | .delete _ => ∀ key, free .image key
  | _ => True

/-- The keys of which the answer tells are backed. -/
def Tells (free : Keys) (s : Store) : (c : Call) → c.Answer → Prop
  | .networkDefault k _, a => ∀ e, a = .ok (some e) → s.Backs free k (Kind.keyOf e)
  | .available k, a => ∀ keys, a = .ok keys → ∀ key ∈ keys, s.Backs free k key
  | _, _ => True

theorem Grounded.mono {c : Call} (h : c.Grounded free s) (hst : s.Grows free t) :
    c.Grounded free t := by
  cases c with
  | insert row => exact Store.Grounds.mono h hst
  | @update k row => exact hst k row.key h
  | _ => exact h

theorem Tells.mono {c : Call} {a : c.Answer} (h : c.Tells free s a) (hst : s.Grows free t) :
    c.Tells free t a := by
  cases c with
  | networkDefault k ip => exact fun e he => hst k _ (h e he)
  | available k => exact fun keys hkeys key hkey => hst k key (h keys hkeys key hkey)
  | _ => trivial

theorem grounded_of_reads {c : Call} (h : c.Reads) : c.Grounded free s := by
  cases c with
  | insert row => exact h.elim
  | update row => exact h.elim
  | delete key => exact h.elim
  | _ => trivial

/-- A call that reaches the database keeps what was backed. -/
theorem grows_effect {c : Call} (h : c.Grounded free s) : s.Grows free (c.effect s) := by
  cases c with
  | insert row =>
    rw [effect_insert row s 0]
    exact s.grows_land _
  | update row => exact Store.grows_withShelf rfl
  | create image =>
    cases ht : s.register (k := .image) image with
    | error e => simpa only [effect, World.perform, ht, World.commit] using Store.Grows.refl s
    | ok t =>
      simp only [effect, World.perform, ht, World.commit]
      exact Store.grows_enter (c := .entry (k := .image) image) ht
  | delete key => exact Store.grows_remove h key
  | _ => exact .refl s

/-- A call that reaches the database leaves no row that points at nothing. -/
theorem grounded_effect {c : Call} (h : c.Grounded free s) (hs : s.Grounded free) :
    (c.effect s).Grounded free := by
  cases c with
  | insert row =>
    rw [effect_insert row s 0]
    exact hs.land h
  | update row => exact hs.update h
  | create image =>
    cases ht : s.register (k := .image) image with
    | error e => simpa only [effect, World.perform, ht, World.commit] using hs
    | ok t =>
      simp only [effect, World.perform, ht, World.commit]
      exact hs.enter (c := .entry (k := .image) image) ht
  | delete key =>
    exact hs.of_rows (grows_effect (c := .delete key) h) fun k => s.assignments_remove (j := .image) key k
  | _ => exact hs

end Call
end FleetBoot
