import FleetBoot.Proofs.Store.Edit

/-! The database after any changes, from the empty one on: its tables have no two rows of one key,
and its catalogs list what was added to them and has not been removed since. -/
namespace FleetBoot

/-- Keys of different kinds are different. -/
theorem Kind.ne_of_ne {j k : Kind} (h : j ≠ k) {a : j.Key} {b : k.Key} :
    (⟨j, a⟩ : (j : Kind) × j.Key) ≠ ⟨k, b⟩ := fun heq => h (Sigma.mk.inj heq).1

namespace Store
variable {k : Kind} {s t : Store} {key : k.Key}

/-- The catalog has an entry with this key. -/
def Has (s : Store) (k : Kind) (key : k.Key) : Prop := ∃ e ∈ (s.shelf k).catalog, Kind.keyOf e = key

theorem mem_available_iff : key ∈ (s.shelf k).available ↔ s.Has k key :=
  Shelf.mem_available.trans Shelf.exists_lookup?_iff

theorem has_of_catalog (h : (t.shelf k).catalog = (s.shelf k).catalog) :
    t.Has k key ↔ s.Has k key := by
  rw [Has, Has, h]

theorem AddsEntry.has_iff {j : Kind} {e : j.Entry} (h : s.AddsEntry t e) :
    t.Has k key ↔ (⟨j, Kind.keyOf e⟩ : (j : Kind) × j.Key) = ⟨k, key⟩ ∨ s.Has k key := by
  obtain ⟨-, rfl⟩ := h
  by_cases hj : j = k
  · subst hj
    simp [Has, or_comm, or_and_right, exists_or]
  · simp only [Kind.ne_of_ne hj, false_or]
    exact has_of_catalog (by rw [shelf_withShelf_of_ne s _ hj])

theorem RemovesEntry.has_iff {j : Kind} {e : j.Entry} (h : s.RemovesEntry t e)
    (hs : (s.shelf j).Keyed) :
    t.Has k key ↔ s.Has k key ∧ (⟨j, Kind.keyOf e⟩ : (j : Kind) × j.Key) ≠ ⟨k, key⟩ := by
  obtain ⟨before, after, hsplit, rfl⟩ := h
  by_cases hj : j = k
  · subst hj
    obtain ⟨hbefore, hafter⟩ := ne_of_nodup_keys (hsplit ▸ hs.catalog)
    have hothers : ∀ a ∈ before ++ after, Kind.keyOf a ≠ Kind.keyOf e := by
      intro a ha
      exact (List.mem_append.mp ha).elim (hbefore a) (hafter a)
    simp only [Has, shelf_withShelf, hsplit, ne_eq, Sigma.mk.injEq, heq_eq_eq, true_and]
    constructor
    · rintro ⟨a, ha, rfl⟩
      refine ⟨⟨a, ?_, rfl⟩, fun heq => hothers a ha heq.symm⟩
      exact (List.mem_append.mp ha).elim (List.mem_append_left _)
        fun h => List.mem_append_right _ (List.mem_cons_of_mem e h)
    · rintro ⟨⟨a, ha, rfl⟩, hne⟩
      refine ⟨a, ?_, rfl⟩
      rcases List.mem_append.mp ha with ha | ha
      · exact List.mem_append_left _ ha
      · rcases List.mem_cons.mp ha with rfl | ha
        · exact absurd rfl hne
        · exact List.mem_append_right _ ha
  · simp only [ne_eq, Kind.ne_of_ne hj, not_false_eq_true, and_true]
    exact has_of_catalog (by rw [shelf_withShelf_of_ne s _ hj])

/-- Putting back a shelf with the same entries changes no catalog. -/
theorem catalog_withShelf (s : Store) {j : Kind} (shelf : Shelf j)
    (h : shelf.catalog = (s.shelf j).catalog) (k : Kind) :
    ((s.withShelf shelf).shelf k).catalog = (s.shelf k).catalog :=
  s.part_withShelf Shelf.catalog shelf h k

end Store

namespace Edit
variable {k : Kind} {s t : Store} {e : Edit} {x : Except StoreError e.Reply} {key : k.Key}

/-- The change is to add an entry with this key to the catalog. -/
def Adds (k : Kind) (key : k.Key) : Edit → Prop
  | .enter (@Registration.entry j e) => (⟨j, Kind.keyOf e⟩ : (j : Kind) × j.Key) = ⟨k, key⟩
  | _ => False

theorem exists_of_adds (h : e.Adds k key) :
    ∃ entry : k.Entry, e = .enter (.entry entry) ∧ Kind.keyOf entry = key := by
  cases e with
  | enter call =>
    cases call with
    | @entry j entry =>
      obtain ⟨rfl, hkey⟩ := Sigma.mk.inj h
      exact ⟨entry, rfl, eq_of_heq hkey⟩
    | network d => exact h.elim
  | _ => exact h.elim

/-- After a change the catalog has the key that was to be added, and those that it had and that were
not to be removed. -/
theorem Outcome.has_iff (h : e.Outcome s t x) (hs : s.Keyed) :
    t.Has k key ↔ e.Adds k key ∨ s.Has k key ∧ ¬ e.Removes k key := by
  have hsame (hcatalog : (t.shelf k).catalog = (s.shelf k).catalog) (hadds : ¬ e.Adds k key)
      (hremoves : ¬ e.Removes k key) :
      t.Has k key ↔ e.Adds k key ∨ s.Has k key ∧ ¬ e.Removes k key := by
    simp [Store.has_of_catalog hcatalog, hadds, hremoves]
  cases e with
  | enter call =>
    cases call with
    | @entry j entry =>
      rcases h with ⟨htaken, -, rfl⟩ | ⟨-, -, hadds⟩
      · have hhas : (Edit.enter (.entry entry)).Adds k key → t.Has k key := by
          intro h
          obtain ⟨rfl, hkey⟩ := Sigma.mk.inj h
          cases hkey
          exact htaken
        simp only [Removes, not_false_eq_true, and_true]
        exact ⟨.inr, fun h => h.elim hhas id⟩
      · simp only [Removes, not_false_eq_true, and_true]
        exact hadds.has_iff
    | network d =>
      rw [Outcome, Registration.Outcome] at h
      split at h
      · obtain ⟨-, rfl⟩ := h
        exact hsame rfl id id
      · obtain ⟨j, name, -, ⟨-, -, rfl⟩ | ⟨-, -, rfl⟩⟩ := h
        · exact hsame rfl id id
        · exact hsame (by apply s.catalog_withShelf; rfl) id id
  | parameter payloadId name value =>
    obtain ⟨-, ⟨-, rfl⟩ | ⟨before, old, after, -, -, rfl⟩⟩ := h
    · exact hsame (by cases k <;> rfl) id id
    · exact hsame (by cases k <;> rfl) id id
  | insert row =>
    rcases h with ⟨-, -, rfl⟩ | ⟨-, -, -, rfl⟩
    · exact hsame rfl id id
    · exact hsame (by apply s.catalog_withShelf; rfl) id id
  | update row =>
    rcases h with ⟨-, -, before, old, after, -, -, rfl⟩ | ⟨-, -, rfl⟩
    · exact hsame (by apply s.catalog_withShelf; rfl) id id
    · exact hsame rfl id id
  | remove gone =>
    rcases h with ⟨image, rfl, -, hremoves⟩ | ⟨hfree, -, rfl⟩
    · simp only [Adds, false_or]
      exact hremoves.has_iff (hs.shelf .image)
    · simp only [Adds, false_or, iff_self_and]
      rintro ⟨entry, hmem, hkey⟩ hgone
      obtain ⟨rfl, hgone⟩ := Sigma.mk.inj hgone
      cases hgone
      exact hfree entry hmem hkey

end Edit

namespace Store
variable {k : Kind} {key : k.Key}

theorem edited_concat (s : Store) (edits : List Edit) (e : Edit) :
    s.edited (edits ++ [e]) = ((s.edited edits).edit e).2 := by
  rw [edited, List.foldl_append]
  rfl

theorem keyed_empty : Keyed {} := by
  constructor
  · intro k
    cases k <;> exact ⟨List.nodup_nil, List.nodup_nil, List.nodup_nil⟩
  · exact List.nodup_nil

/-- No table ever has two rows of one key. -/
theorem keyed_edited (edits : List Edit) : (edited {} edits).Keyed := by
  induction edits using List.reverseRecOn with
  | nil => exact keyed_empty
  | append_singleton edits e ih =>
    rw [edited_concat]
    exact (edit_outcome ih e).keyed ih

/-- A registration of an entry fails only where the catalog has its key. -/
theorem has_of_refused {s : Store} {e : k.Entry} (h : (s.edit (.enter (.entry e))).1 ≠ .ok ()) :
    s.Has k (Kind.keyOf e) := by
  rcases s.enter_entry_outcome e with ⟨htaken, -, -⟩ | ⟨-, hok, -⟩
  · exact htaken
  · exact absurd hok h

/-- A catalog has the keys under which an entry was added and none was removed since. -/
theorem has_edited_iff (edits : List Edit) (key : k.Key) :
    (edited {} edits).Has k key ↔ ∃ before entry after,
      edits = before ++ .enter (.entry entry) :: after ∧ Kind.keyOf entry = key ∧
      ((edited {} before).edit (.enter (.entry (k := k) entry))).1 = .ok () ∧
      ∀ e ∈ after, ¬ e.Removes k key := by
  induction edits using List.reverseRecOn with
  | nil =>
    constructor
    · rintro ⟨e, he, -⟩
      cases k <;> exact absurd he List.not_mem_nil
    · rintro ⟨before, entry, after, hsplit, -⟩
      simp at hsplit
  | append_singleton edits e ih =>
    rw [edited_concat, (edit_outcome (keyed_edited edits) e).has_iff (keyed_edited edits)]
    constructor
    · rintro (hadds | ⟨hhas, hremoves⟩)
      · obtain ⟨entry, rfl, hkey⟩ := Edit.exists_of_adds hadds
        by_cases hok : ((edited {} edits).edit (.enter (.entry entry))).1 = .ok ()
        · exact ⟨edits, entry, [], rfl, hkey, hok, nofun⟩
        · -- the key is taken, so it was added before and has been in the catalog since
          have hhas := hkey ▸ has_of_refused hok
          obtain ⟨before, first, after, rfl, hfirst, hadded, hkept⟩ := ih.mp hhas
          refine ⟨before, first, after ++ [.enter (.entry entry)], by simp, hfirst, hadded, ?_⟩
          simpa [or_imp, forall_and, Edit.Removes] using hkept
      · obtain ⟨before, first, after, rfl, hfirst, hadded, hkept⟩ := ih.mp hhas
        refine ⟨before, first, after ++ [e], by simp, hfirst, hadded, ?_⟩
        simpa [or_imp, forall_and] using And.intro hkept hremoves
    · rintro ⟨before, entry, after, hsplit, hkey, hadded, hkept⟩
      induction after using List.reverseRecOn with
      | nil =>
        obtain ⟨rfl, he⟩ := List.append_inj' hsplit rfl
        obtain rfl := List.singleton_inj.mp he
        left
        rw [← hkey]
        rfl
      | append_singleton after last _ =>
        rw [← List.cons_append, ← List.append_assoc] at hsplit
        obtain ⟨rfl, he⟩ := List.append_inj' hsplit rfl
        obtain rfl := List.singleton_inj.mp he
        right
        constructor
        · exact ih.mpr ⟨before, entry, after, rfl, hkey, hadded, fun e he => hkept e (by simp [he])⟩
        · exact hkept e (by simp)

/-- After any changes from the empty database on, no table has two rows of one key, and the next
change does to its table what it is for, or nothing where it fails. A catalog lists in increasing
order, each once, the keys that were added to it and have not been removed. -/
theorem edits_exact (edits : List Edit) :
    (edited {} edits).Keyed ∧
      (∀ e : Edit, e.Outcome (edited {} edits) ((edited {} edits).edit e).2
        ((edited {} edits).edit e).1) ∧
      (∀ (e : Edit) (cause : StoreError), ((edited {} edits).edit e).1 = .error cause →
        ((edited {} edits).edit e).2 = edited {} edits) ∧
      ∀ k : Kind, ((edited {} edits).shelf k).available.Pairwise Kind.Before ∧
        ∀ key : k.Key, key ∈ ((edited {} edits).shelf k).available ↔ ∃ before entry after,
          edits = before ++ .enter (.entry entry) :: after ∧ Kind.keyOf entry = key ∧
          ((edited {} before).edit (.enter (.entry (k := k) entry))).1 = .ok () ∧
          ∀ e ∈ after, ¬ e.Removes k key := by
  have hs := keyed_edited edits
  refine ⟨hs, edit_outcome hs, ?_, fun k => ⟨Shelf.available_pairwise (hs.shelf k), fun key => ?_⟩⟩
  · intro e cause hfailed
    apply Edit.Outcome.eq_of_error
    rw [← hfailed]
    exact edit_outcome hs e
  · rw [mem_available_iff]
    exact has_edited_iff edits key

end Store
end FleetBoot
