import FleetBoot.Proofs.Plan.Reads

/-! What a run changes in the database. A plan of the service changes it at most once, by its last
step, so that a run without a result, or with a result that no change goes with, leaves it alone. -/
namespace FleetBoot

namespace Call

/-- The answer says that the call changed the database. -/
def Changed : (c : Call) → c.Answer → Prop
  | .insert _, a => a = .ok ()
  | .create _, a => a = .ok ()
  | .update _, a => ∃ n, 0 < n ∧ a = .ok n
  | .delete _, a => ∃ image, a = .ok (some image)
  | _, _ => False

theorem not_changed_of_reads {c : Call} (h : c.Reads) (a : c.Answer) : ¬ c.Changed a := by
  cases c <;> first | exact id | exact h.elim

/-- The database after a call that reaches it. -/
def effect (c : Call) (s : Store) : Store := (World.perform { store := s } c).2.store

@[simp] theorem effect_insert {k : Kind} (row : Assignment k) (s : Store) (due : Nat) :
    (Call.insert row).effect s = s.land ⟨k, row, due⟩ := by
  simp only [effect, World.perform, Store.land]
  cases s.insert row <;> rfl

@[simp] theorem effect_delete (key : ImageKey) (s : Store) :
    (Call.delete key).effect s = (s.remove .image key).2 := rfl

end Call

namespace World
variable {conditions : Conditions} {w : World}

theorem store_perform (w : World) (c : Call) : (w.perform c).2.store = c.effect w.store := by
  have hcommit (x : Except StoreError Store) :
      (w.commit x).2.store = (commit { store := w.store } x).2.store := by cases x <;> rfl
  cases c with
  | insert row => exact hcommit _
  | create image => exact hcommit _
  | _ => rfl

/-- A call whose answer does not say that it changed the database left it as it was. -/
theorem store_perform_of_not_changed {c : Call} (h : ¬ c.Changed (w.perform c).1) :
    (w.perform c).2.store = w.store := by
  have hcommit (x : Except StoreError Store) (hx : (w.commit x).1 ≠ .ok ()) :
      (w.commit x).2.store = w.store := by
    cases x with
    | ok s => exact absurd rfl hx
    | error e => rfl
  cases c with
  | insert row => exact hcommit _ h
  | create image => exact hcommit _ h
  | @update k row =>
    cases hrow : (w.store.shelf k).row? row.mac with
    | none => simp only [perform, Store.update_of_none hrow]
    | some a => exact absurd ⟨_, Store.update_pos_iff.mpr ⟨a, hrow⟩, rfl⟩ h
  | delete key =>
    cases hl : (w.store.shelf .image).lookup? key with
    | none => simp only [perform, Store.remove, hl]
    | some image => exact absurd ⟨image, by simp only [perform, Store.remove, hl]⟩ h
  | _ => rfl

/-- Either a call changed nothing, or its answer says that it did, and it had its effect. -/
theorem store_answer (conditions : Conditions) (w : World) (c : Call) :
    (w.answer conditions c).2.store = w.store ∨
      c.Changed (w.answer conditions c).1 ∧
        (w.answer conditions c).2.store = c.effect w.store := by
  unfold answer
  split
  · exact .inl rfl
  · by_cases h : c.Changed (w.perform c).1
    · exact .inr ⟨h, store_perform w c⟩
    · exact .inl (store_perform_of_not_changed h)

@[simp] theorem landings_answer (conditions : Conditions) (w : World) (c : Call) :
    (w.answer conditions c).2.landings = w.landings := by
  have hcommit (x : Except StoreError Store) : (w.commit x).2.landings = w.landings := by
    cases x <;> rfl
  unfold answer
  split
  · rfl
  · cases c <;> first | rfl | exact hcommit _

/-- The database as it is, or as it will be when time has passed. -/
def Comes (w : World) (s : Store) : Prop := s = w.store ∨ ∃ t, s = (w.elapse t).store

theorem comes_store (w : World) : w.Comes w.store := .inl rfl

theorem comes_of_landings {s : Store} (hw : w.landings = []) (h : w.Comes s) : s = w.store := by
  rcases h with rfl | ⟨t, rfl⟩
  · rfl
  · exact (elapse_alike hw t).store

/-- One insert that is to come either has landed or has not. -/
theorem elapse_landing {l : Landing} (hw : w.landings = [l]) (t : Nat) :
    (w.elapse t).store = w.store ∧ (w.elapse t).landings = [l] ∨
      (w.elapse t).store = w.store.land l ∧ (w.elapse t).landings = [] := by
  by_cases hdue : l.due ≤ t
  · exact .inr (by simp [elapse, hw, hdue, List.mergeSort_singleton])
  · exact .inl (by simp [elapse, hw, hdue, Nat.lt_of_not_le hdue])

theorem comes_of_landing {l : Landing} {s : Store} (hw : w.landings = [l]) (h : w.Comes s) :
    s = w.store ∨ s = w.store.land l := by
  rcases h with rfl | ⟨t, rfl⟩
  · exact .inl rfl
  · exact (elapse_landing hw t).imp And.left And.left

/-- The call changes the database, now or when its row is inserted, or nothing does. -/
def ChangedBy (c : Call) (v w : World) : Prop :=
  ∀ s, v.Comes s → s = w.store ∨ s = c.effect w.store

variable {c : Call} {u v : World}

theorem changedBy_of_store (hv : v.landings = []) (h : v.store = w.store ∨ v.store = c.effect w.store) :
    v.ChangedBy c w := by
  intro s hs
  rwa [comes_of_landings hv hs]

theorem ChangedBy.of_alike (h : v.ChangedBy c u) (hu : u.Alike w) : v.ChangedBy c w := by
  intro s hs
  rw [← hu.store]
  exact h s hs

theorem changedBy_answer (conditions : Conditions) (c : Call) (hw : w.landings = []) :
    (w.answer conditions c).2.ChangedBy c w :=
  changedBy_of_store ((landings_answer conditions w c).trans hw)
    ((store_answer conditions w c).imp_right And.right)

/-- A write-back has left all as it was, or it has added its row, or it is to add it. -/
theorem changedBy_writeBack (conditions : Conditions) (d : Deadline) {k : Kind} (row : Assignment k)
    (hw : w.landings = []) : (w.writeBack conditions d row).2.ChangedBy (.insert row) w := by
  have hsame (t : Nat) : (w.elapse t).ChangedBy (.insert row) w :=
    changedBy_of_store ((elapse_alike hw t).landings.trans hw) (.inl (elapse_alike hw t).store)
  have hanswer (t : Nat) :
      ((w.elapse t).answer conditions (.insert row)).2.ChangedBy (.insert row) w :=
    (changedBy_answer conditions (.insert row) ((elapse_alike hw t).landings.trans hw)).of_alike
      (elapse_alike hw t)
  have hstarted (due t : Nat) :
      (elapse { w with landings := w.landings ++ [⟨k, row, due⟩] } t).ChangedBy (.insert row) w := by
    intro s hs
    rw [Call.effect_insert row w.store due]
    rcases elapse_landing (w := { w with landings := w.landings ++ [⟨k, row, due⟩] })
      (by rw [hw, List.nil_append]) t with ⟨hstore, hl⟩ | ⟨hstore, hl⟩
    · rw [← hstore]
      exact comes_of_landing hl hs
    · exact .inr ((comes_of_landings hl hs).trans hstore)
  unfold writeBack
  dsimp only
  split
  · split
    · exact hsame _
    · split
      · exact hsame _
      · exact hanswer _
  · split
    · exact hstarted _ _
    · exact hsame _

end World

namespace Plan
variable {ε α β : Type} {conditions : Conditions} {d : Deadline} {w : World}
  {good good' : Call → Except ε α → Prop} {p : Plan ε α}

@[simp] theorem run_ofExcept (conditions : Conditions) (d : Deadline) (x : Except ε α) (w : World) :
    (Plan.ofExcept x).run conditions d w = (some x, w) := by cases x <;> rfl

/-- Whatever the answers, the plan changes the database by its last step at most, and `good` holds
of the call that changes it and of the result. What became of a write-back makes no difference. -/
inductive ChangesLast (good : Call → Except ε α → Prop) : Plan ε α → Prop where
  | done (a : α) : ChangesLast good (.done a)
  | fail (e : ε) : ChangesLast good (.fail e)
  | call (c : Call) {next : c.Answer → Plan ε α}
      (last : ∀ a, c.Changed a → ∃ x, next a = .ofExcept x ∧ good c x)
      (rest : ∀ a, ChangesLast good (next a)) : ChangesLast good (.call c next)
  | writeBack {k : Kind} (row : Assignment k) {next : WriteBack → Plan ε α} {x : Except ε α}
      (last : ∀ o, next o = .ofExcept x) (hgood : good (.insert row) x) :
      ChangesLast good (.writeBack row next)

theorem changesLast_ofExcept (x : Except ε α) : (Plan.ofExcept x).ChangesLast good := by
  cases x with
  | ok a => exact .done a
  | error e => exact .fail e

theorem Only.changesLast (hp : p.Only Call.Reads) : p.ChangesLast good := by
  induction p with
  | done a => exact .done a
  | fail e => exact .fail e
  | call c next ih =>
    exact .call c (fun a h => absurd h (Call.not_changed_of_reads hp.1 a)) fun a => ih a (hp.2 a)
  | writeBack row next => exact hp.elim

theorem ChangesLast.mono (hp : p.ChangesLast good) (h : ∀ c x, good c x → good' c x) :
    p.ChangesLast good' := by
  induction hp with
  | done a => exact .done a
  | fail e => exact .fail e
  | call c last _ ih =>
    refine .call c (fun a hchanged => ?_) ih
    obtain ⟨x, hx, hgood⟩ := last a hchanged
    exact ⟨x, hx, h c x hgood⟩
  | writeBack row last hgood => exact .writeBack row last (h _ _ hgood)

/-- What follows a plan that only reads may go by how that one ended. -/
theorem Only.changesLast_bind {good : Call → Except ε β → Prop} {mid : Except ε α → Prop}
    (hp : p.Only Call.Reads) (hmid : p.Ends mid) {f : α → Plan ε β}
    (hf : ∀ a, mid (.ok a) → (f a).ChangesLast good) : (p.bind f).ChangesLast good := by
  induction p with
  | done a => exact hf a hmid
  | fail e => exact .fail e
  | call c next ih =>
    exact .call c (fun a h => absurd h (Call.not_changed_of_reads hp.1 a))
      fun a => ih a (hp.2 a) (hmid a)
  | writeBack row next => exact hp.elim

theorem bind_ofExcept (x : Except ε α) (f : α → β) :
    ((Plan.ofExcept x).bind fun a => .done (f a)) = .ofExcept (x.map f) := by cases x <;> rfl

theorem ChangesLast.map {good : Call → Except ε β → Prop} (f : α → β)
    (hp : p.ChangesLast fun c x => good c (x.map f)) :
    (p.bind fun a => .done (f a)).ChangesLast good := by
  induction hp with
  | done a => exact .done _
  | fail e => exact .fail e
  | call c last _ ih =>
    refine .call c (fun a hchanged => ?_) ih
    obtain ⟨x, hx, hgood⟩ := last a hchanged
    exact ⟨x.map f, by simp only [hx, bind_ofExcept], hgood⟩
  | writeBack row last hgood =>
    exact .writeBack row (fun o => by simp only [last o, bind_ofExcept]) hgood

/-- A run leaves the database alone, or it has a result, and the one call that changes it is good. -/
theorem run_changes (hp : p.ChangesLast good) (hw : w.landings = []) :
    let r := p.run conditions d w
    (r.2.store = w.store ∧ r.2.landings = []) ∨
      ∃ c x, r.1 = some x ∧ good c x ∧ r.2.ChangedBy c w := by
  induction hp generalizing w with
  | done a => exact .inl ⟨rfl, hw⟩
  | fail e => exact .inl ⟨rfl, hw⟩
  | @call c next last _ ih =>
    let t := w.elapse (d.wait w.now (conditions.delay c)).time
    let u := (t.answer conditions c).2
    have ht : t.Alike w := World.elapse_alike hw _
    have hu : u.landings = [] := (World.landings_answer conditions t c).trans (ht.landings.trans hw)
    rw [run_call]
    dsimp only
    split
    · rcases World.store_answer conditions t c with hstore | ⟨hchanged, hstore⟩
      · have hs : u.store = w.store := hstore.trans ht.store
        rcases ih (t.answer conditions c).1 hu with ⟨hs', hl⟩ | ⟨c', x, hx, hgood, hby⟩
        · exact .inl ⟨hs'.trans hs, hl⟩
        · exact .inr ⟨c', x, hx, hgood, fun s h => hs ▸ hby s h⟩
      -- the call that changed the database was the last, so nothing is left for the induction
      · obtain ⟨x, hnext, hgood⟩ := last (t.answer conditions c).1 hchanged
        have hby : u.ChangedBy c w := World.changedBy_of_store hu (.inr (by rw [hstore, ht.store]))
        rw [show next _ = .ofExcept x from hnext, run_ofExcept]
        exact .inr ⟨c, x, rfl, hgood, hby⟩
    · exact .inl ⟨ht.store, ht.landings.trans hw⟩
  | writeBack row last hgood =>
    rw [run_writeBack]
    dsimp only
    rw [last, run_ofExcept]
    exact .inr ⟨.insert row, _, rfl, hgood, World.changedBy_writeBack conditions d row hw⟩

end Plan
end FleetBoot
