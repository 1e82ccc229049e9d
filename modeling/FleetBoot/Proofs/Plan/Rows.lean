import FleetBoot.Proofs.Plan.Change
import FleetBoot.Proofs.Store.Change

/-! The row of a device while plans run and inserts land: once there it stays, and only an update
changes it. -/
namespace FleetBoot
variable {k : Kind} {mac : String} {a : Assignment k}

namespace Store
variable {s : Store}

/-- An insert that nobody waits for adds its row or changes nothing. -/
theorem land_cases (s : Store) (row : Assignment k) (due : Nat) :
    s.land ⟨k, row, due⟩ = s ∨ s.AddsRow (s.land ⟨k, row, due⟩) row := by
  unfold land
  rcases s.insert_cases row with ⟨hnone, hi⟩ | ⟨-, hi⟩
  · exact .inr ⟨hnone, by simp only [hi]⟩
  · exact .inl (by simp only [hi])

theorem row?_land (h : (s.shelf k).row? mac = some a) (l : Landing) :
    ((s.land l).shelf k).row? mac = some a := by
  obtain ⟨j, row, due⟩ := l
  rcases s.land_cases row due with hland | ⟨hnone, hland⟩
  · rw [hland, h]
  · rw [hland]
    by_cases hj : j = k
    · subst hj
      have hmac : row.mac ≠ mac := by
        rintro rfl
        cases hnone.symm.trans h
      rw [shelf_withShelf, Shelf.row?_withRow hnone, if_neg hmac, h]
    · rw [shelf_withShelf_of_ne s _ hj, h]

theorem row?_of_assignments {t : Store} (h : (t.shelf k).assignments = (s.shelf k).assignments) :
    (t.shelf k).row? mac = (s.shelf k).row? mac := by
  rw [Shelf.row?, Shelf.row?, h]

/-- A call leaves the row of a device, unless it is an update. -/
theorem row?_effect (h : (s.shelf k).row? mac = some a) (c : Call) :
    ((c.effect s).shelf k).row? mac = some a ∨
      ∃ b : Assignment k, c = .update b ∧ ((c.effect s).shelf k).row? mac = some b := by
  cases c with
  | insert row =>
    rw [Call.effect_insert row s 0]
    exact .inl (row?_land h _)
  | update row =>
    rcases row?_update h row with hold | ⟨b, hb, hnew⟩
    · exact .inl hold
    · obtain ⟨rfl, hb⟩ := Sigma.mk.inj hb
      cases hb
      exact .inr ⟨row, rfl, hnew⟩
  | create image =>
    left
    rcases s.register_cases (k := .image) image with ⟨-, he⟩ | ⟨-, t, ht, -⟩
    · simpa only [Call.effect, World.perform, he, World.commit] using h
    · simp only [Call.effect, World.perform, ht]
      rw [World.commit, row?_of_assignments (assignments_register ht k), h]
  | delete key =>
    left
    rw [Call.effect_delete, row?_of_assignments (s.assignments_remove (j := .image) key k), h]
  | _ => exact .inl h

end Store

namespace World
variable {w : World}

theorem row?_elapse (h : (w.store.shelf k).row? mac = some a) (t : Nat) :
    ((w.elapse t).store.shelf k).row? mac = some a := by
  have hfold (landings : List Landing) (s : Store) (hs : (s.shelf k).row? mac = some a) :
      ((landings.foldl Store.land s).shelf k).row? mac = some a := by
    induction landings generalizing s with
    | nil => exact hs
    | cons l landings ih => exact ih (s.land l) (Store.row?_land hs l)
  exact hfold _ w.store h

theorem row?_of_comes {s : Store} (h : (w.store.shelf k).row? mac = some a) (hs : w.Comes s) :
    (s.shelf k).row? mac = some a := by
  rcases hs with rfl | ⟨t, rfl⟩
  · exact h
  · exact row?_elapse h t

theorem row?_answer_insert (conditions : Conditions) {j : Kind} (row : Assignment j)
    (h : (w.store.shelf k).row? mac = some a) :
    ((w.answer conditions (.insert row)).2.store.shelf k).row? mac = some a := by
  rcases store_answer conditions w (.insert row) with hsame | ⟨-, heffect⟩
  · rw [hsame, h]
  · rw [heffect, Call.effect_insert row w.store 0]
    exact Store.row?_land h _

theorem row?_writeBack (conditions : Conditions) (d : Deadline) {j : Kind} (row : Assignment j)
    (h : (w.store.shelf k).row? mac = some a) :
    ((w.writeBack conditions d row).2.store.shelf k).row? mac = some a := by
  have hstarted : (World.store (if conditions.admits row then
      { w with landings := w.landings ++ [⟨j, row, w.now + conditions.delay (.insert row)⟩] }
      else w)).shelf k = w.store.shelf k := by
    split <;> rfl
  unfold writeBack
  dsimp only
  split
  · split
    · exact row?_elapse h _
    · split
      · exact row?_elapse h _
      · exact row?_answer_insert conditions row (row?_elapse h _)
  · exact row?_elapse (by rw [hstarted, h]) _

end World

namespace Plan
variable {ε α : Type} {conditions : Conditions} {d : Deadline} {w : World}
  {good : Call → Except ε α → Prop} {p : Plan ε α}

/-- A call leaves a device its row, or it is an update of this row and comes last. -/
theorem row?_answer (conditions : Conditions) {c : Call} {next : c.Answer → Plan ε α}
    (last : ∀ a, c.Changed a → ∃ x, next a = .ofExcept x ∧ good c x)
    (h : (w.store.shelf k).row? mac = some a) :
    let r := w.answer conditions c
    (r.2.store.shelf k).row? mac = some a ∨
      ∃ (b : Assignment k) (x : Except ε α), next r.1 = .ofExcept x ∧ good (.update b) x ∧
        (r.2.store.shelf k).row? mac = some b := by
  intro r
  rcases World.store_answer conditions w c with hstore | ⟨hchanged, hstore⟩
  · exact .inl (by rw [hstore, h])
  · obtain ⟨x, hnext, hgood⟩ := last r.1 hchanged
    rcases Store.row?_effect h c with hsame | ⟨b, rfl, hb⟩
    · exact .inl (by rw [hstore, hsame])
    · exact .inr ⟨b, x, hnext, hgood, by rw [hstore, hb]⟩

/-- A run leaves a device its row, or it has a result and its one change is an update of this row. -/
theorem run_row? (hp : p.ChangesLast good)
    (h : (w.store.shelf k).row? mac = some a) :
    let r := p.run conditions d w
    (r.2.store.shelf k).row? mac = some a ∨
      ∃ (b : Assignment k) (x : Except ε α), r.1 = some x ∧ good (.update b) x ∧
        (r.2.store.shelf k).row? mac = some b := by
  induction hp generalizing w with
  | done a => exact .inl h
  | fail e => exact .inl h
  | @call c next last _ ih =>
    let t := w.elapse (d.wait w.now (conditions.delay c)).time
    have ht : (t.store.shelf k).row? mac = some a := World.row?_elapse h _
    rw [run_call]
    dsimp only
    split
    · rcases row?_answer conditions last ht with hsame | ⟨b, x, hnext, hgood, hb⟩
      · exact ih _ hsame
      · rw [show next _ = .ofExcept x from hnext, run_ofExcept]
        exact .inr ⟨b, x, rfl, hgood, hb⟩
    · exact .inl ht
  | writeBack row last _ =>
    rw [run_writeBack]
    dsimp only
    rw [last, run_ofExcept]
    exact .inl (World.row?_writeBack conditions d row h)

end Plan
end FleetBoot
