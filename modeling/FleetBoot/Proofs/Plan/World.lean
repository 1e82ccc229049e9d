import FleetBoot.Plan.Run
import FleetBoot.Proofs.Plan.Eval
import FleetBoot.Proofs.Store.Rows

/-! Which calls change what later calls see, and runs of the others. -/
namespace FleetBoot

namespace Call

/-- The call goes to the object store. -/
def OnObjects : Call → Prop
  | .presign _ | .fetch _ _ => True
  | _ => False

/-- The call goes to the object store, or looks up what networks are given. -/
def Rowless : Call → Prop
  | .presign _ | .fetch _ _ | .networkDefault _ _ => True
  | _ => False

/-- The call changes nothing that another one sees. -/
def Reads : Call → Prop
  | .insert _ | .update _ | .create _ | .delete _ => False
  | _ => True

theorem OnObjects.rowless {c : Call} (h : c.OnObjects) : c.Rowless := by
  cases c <;> simp_all [OnObjects, Rowless]

theorem Rowless.reads {c : Call} (h : c.Rowless) : c.Reads := by
  cases c <;> simp_all [Rowless, Reads]

theorem OnObjects.reads {c : Call} (h : c.OnObjects) : c.Reads := h.rowless.reads

end Call

/-- No call to the database fails, or is answered without it. -/
def Conditions.Faultless (conditions : Conditions) : Prop :=
  ∀ c : Call, ¬ c.OnObjects → conditions.reply c = none

@[simp] theorem Deadline.wait_never (now delay : Nat) :
    Deadline.never.wait now delay = ⟨true, now + delay⟩ := rfl

/-- The same objects, whatever was asked of them. -/
structure ObjectStore.Alike (a b : ObjectStore) : Prop where
  objects : a.objects = b.objects
  failing : a.failing = b.failing

namespace ObjectStore.Alike
variable {a b c : ObjectStore}

theorem refl (a : ObjectStore) : a.Alike a := ⟨rfl, rfl⟩

theorem trans (h : a.Alike b) (h' : b.Alike c) : a.Alike c :=
  ⟨h.objects.trans h'.objects, h.failing.trans h'.failing⟩

theorem symm (h : a.Alike b) : b.Alike a := ⟨h.objects.symm, h.failing.symm⟩

theorem presign (h : a.Alike b) (s : Signing) : (a.presign s).1 = (b.presign s).1 := by
  simp only [ObjectStore.presign, ObjectStore.sign, h.failing]

theorem fetch (h : a.Alike b) (bucket key : String) :
    (a.fetch bucket key).1 = (b.fetch bucket key).1 := by
  simp only [ObjectStore.fetch, ObjectStore.body, h.failing, h.objects]

end ObjectStore.Alike

/-- The same database and objects, and the same inserts to come. -/
structure World.Alike (v w : World) : Prop where
  store : v.store = w.store
  objects : v.objects.Alike w.objects
  landings : v.landings = w.landings

/-- The same but for the rows of devices and the inserts to come. -/
structure World.Similar (v w : World) : Prop where
  objects : v.objects.Alike w.objects
  catalog : ∀ k, (v.store.shelf k).catalog = (w.store.shelf k).catalog
  networks : ∀ k, (v.store.shelf k).networks = (w.store.shelf k).networks

namespace World
variable {conditions : Conditions} {u v w : World} {c : Call}

theorem Alike.refl (w : World) : w.Alike w := ⟨rfl, .refl _, rfl⟩

theorem Alike.trans (h : u.Alike v) (h' : v.Alike w) : u.Alike w :=
  ⟨h.store.trans h'.store, h.objects.trans h'.objects, h.landings.trans h'.landings⟩

theorem Alike.symm (h : v.Alike w) : w.Alike v := ⟨h.store.symm, h.objects.symm, h.landings.symm⟩

theorem answer_eq_perform (h : conditions.Faultless) (hc : ¬ c.OnObjects) (w : World) :
    w.answer conditions c = w.perform c := by
  simp only [answer, h c hc]

theorem perform_alike (hc : c.Reads) (w : World) : (w.perform c).2.Alike w := by
  cases c with
  | presign s => exact ⟨rfl, ⟨rfl, rfl⟩, rfl⟩
  | fetch bucket key => exact ⟨rfl, ⟨rfl, rfl⟩, rfl⟩
  | insert row => exact hc.elim
  | update row => exact hc.elim
  | create image => exact hc.elim
  | delete key => exact hc.elim
  | _ => exact .refl w

theorem answer_alike (conditions : Conditions) (hc : c.Reads) (w : World) :
    (w.answer conditions c).2.Alike w := by
  unfold answer
  split
  · exact .refl w
  · exact perform_alike hc w

theorem Similar.refl (w : World) : w.Similar w := ⟨.refl _, fun _ => rfl, fun _ => rfl⟩

theorem Similar.trans (h : u.Similar v) (h' : v.Similar w) : u.Similar w where
  objects := h.objects.trans h'.objects
  catalog k := (h.catalog k).trans (h'.catalog k)
  networks k := (h.networks k).trans (h'.networks k)

theorem Alike.similar (h : v.Alike w) : v.Similar w :=
  ⟨h.objects, fun _ => by rw [h.store], fun _ => by rw [h.store]⟩

/-- A shelf may be put back with other rows. -/
theorem similar_withShelf (w : World) {k : Kind} (shelf : Shelf k)
    (hcatalog : shelf.catalog = (w.store.shelf k).catalog)
    (hnetworks : shelf.networks = (w.store.shelf k).networks) :
    World.Similar { w with store := w.store.withShelf shelf } w where
  objects := .refl _
  catalog j := by
    by_cases hj : k = j
    · subst hj
      simp [hcatalog]
    · simp [Store.shelf_withShelf_of_ne _ _ hj]
  networks j := by
    by_cases hj : k = j
    · subst hj
      simp [hnetworks]
    · simp [Store.shelf_withShelf_of_ne _ _ hj]

theorem Similar.lookup? (h : v.Similar w) (k : Kind) (key : k.Key) :
    (v.store.shelf k).lookup? key = (w.store.shelf k).lookup? key :=
  Shelf.lookup?_congr (h.catalog k) key

theorem Similar.networkDefault (h : v.Similar w) (k : Kind) (ip : Address) :
    (v.store.shelf k).networkDefault ip = (w.store.shelf k).networkDefault ip :=
  Shelf.networkDefault_congr (h.catalog k) (h.networks k) ip

theorem Similar.answer (h : v.Similar w) (hc : c.Rowless) :
    (v.answer conditions c).1 = (w.answer conditions c).1 := by
  unfold World.answer
  split
  · rfl
  · cases c with
    | presign s => exact h.objects.presign s
    | fetch bucket key => exact h.objects.fetch bucket key
    | networkDefault k ip => exact congrArg Except.ok (h.networkDefault k ip)
    | _ => exact hc.elim

/-- The answers to all calls as long as nothing changes. -/
def answers (w : World) (conditions : Conditions) (c : Call) : c.Answer :=
  (w.answer conditions c).1

theorem answers_eq_perform (h : conditions.Faultless) (hc : ¬ c.OnObjects) (w : World) :
    w.answers conditions c = (w.perform c).1 := by
  rw [answers, answer_eq_perform h hc]

theorem elapse_alike (h : w.landings = []) (t : Nat) : (w.elapse t).Alike w := by
  refine ⟨?_, .refl _, ?_⟩ <;> simp [elapse, h]

theorem land_similar (w : World) (l : Landing) :
    World.Similar { w with store := w.store.land l } w := by
  rw [Store.land]
  rcases w.store.insert_cases l.row with ⟨-, hi⟩ | ⟨-, hi⟩
  · rw [hi]
    exact similar_withShelf w _ rfl rfl
  · rw [hi]
    exact .refl w

theorem foldl_land_similar (w : World) (landings : List Landing) :
    World.Similar { w with store := landings.foldl Store.land w.store } w := by
  induction landings generalizing w with
  | nil => exact .refl w
  | cons l landings ih => exact (ih { w with store := w.store.land l }).trans (land_similar w l)

/-- As time passes rows may be added, and nothing else changes. -/
theorem elapse_similar (w : World) (t : Nat) : (w.elapse t).Similar w where
  objects := .refl _
  catalog := (foldl_land_similar w _).catalog
  networks := (foldl_land_similar w _).networks

/-- A write-back that is waited for gives the device its row if it had none. -/
theorem writeBack_inserted {k : Kind} {row : Assignment k} (h : conditions.admits row = true)
    (hw : w.landings = []) (hrow : (w.store.shelf k).row? row.mac = none) :
    ∃ v : World, w.writeBack conditions .never row = (.inserted, v) ∧ v.Similar w ∧
      v.store.shelf k = (w.store.shelf k).withRow row ∧ v.landings = [] := by
  obtain ⟨⟨hdelay, hcrash⟩, hreply⟩ : (conditions.delay (.insert row) ≤ WriteBack.limit ∧
      conditions.crashes (.insert row) = false) ∧ conditions.reply (.insert row) = none := by
    simpa [Conditions.admits] using h
  let t := w.elapse (w.now + min (conditions.delay (.insert row)) WriteBack.limit)
  let v : World := { t with store := t.store.withShelf ((t.store.shelf k).withRow row) }
  have ht : t.Alike w := elapse_alike hw _
  have ha : t.answer conditions (.insert row) = (.ok (), v) := by
    have hnone : (t.store.shelf k).row? row.mac = none := by rw [ht.store, hrow]
    simp only [answer, hreply, perform, Store.insert_of_none hnone, commit, v]
  have hv : v.Similar w :=
    (similar_withShelf t ((t.store.shelf k).withRow row) rfl rfl).trans ht.similar
  refine ⟨v, ?_, hv, by simp [v, ht.store], ht.landings.trans hw⟩
  simp only [writeBack, Deadline.wait_never, if_true, Nat.not_lt.mpr hdelay, if_false, hcrash,
    Bool.false_eq_true]
  rw [show w.elapse _ = t from rfl, ha]
  rfl

end World

namespace Plan
variable {ε α β : Type}

theorem run_bind (conditions : Conditions) (d : Deadline) (p : Plan ε α) (f : α → Plan ε β)
    (w : World) :
    (p.bind f).run conditions d w =
      match p.run conditions d w with
      | (some (.ok a), v) => (f a).run conditions d v
      | (some (.error e), v) => (some (.error e), v)
      | (none, v) => (none, v) := by
  induction p generalizing w with
  | done a => rfl
  | fail e => rfl
  | call c next ih =>
    simp only [bind_call, run]
    split
    · exact ih _ _
    · rfl
  | writeBack row next ih => exact ih _ _

theorem run_map (conditions : Conditions) (d : Deadline) (f : α → β) (p : Plan ε α) (w : World) :
    (f <$> p).run conditions d w =
      (((p.run conditions d w).1).map (Except.map f), (p.run conditions d w).2) := by
  rw [map_eq, run_bind]
  rcases p.run conditions d w with ⟨_ | _ | _, v⟩ <;> rfl

/-- Without a deadline a plan that sees no rows of devices gives what the answers say. It leaves all
as it was if no inserts are to come. -/
theorem run_rowless (conditions : Conditions) {p : Plan ε α} (hp : p.Only Call.Rowless)
    (w : World) :
    ∃ v, p.run conditions .never w = (some (p.eval (w.answers conditions)), v) ∧ v.Similar w ∧
      (w.landings = [] → v.Alike w) := by
  induction p generalizing w with
  | done a => exact ⟨w, rfl, .refl w, fun _ => .refl w⟩
  | fail e => exact ⟨w, rfl, .refl w, fun _ => .refl w⟩
  | call c next ih =>
    let t := w.elapse (w.now + conditions.delay c)
    let u := (t.answer conditions c).2
    have ht : t.Similar w := w.elapse_similar _
    have hu : u.Alike t := World.answer_alike conditions hp.1.reads t
    have ha : (t.answer conditions c).1 = w.answers conditions c := ht.answer hp.1
    obtain ⟨v, hv, hvu, halike⟩ := ih (t.answer conditions c).1 (hp.2 _) u
    refine ⟨v, ?_, hvu.trans (hu.similar.trans ht), fun hw => ?_⟩
    · have hrun : (Plan.call c next).run conditions .never w =
          (next (t.answer conditions c).1).run conditions .never u := by
        simp only [run, Deadline.wait_never, if_true, t, u]
      rw [hrun, hv, eval, ← ha]
      exact congrArg (fun r => (some r, v))
        ((hp.2 _).eval_congr fun c' hc' => (hu.similar.trans ht).answer hc')
    · have ht : t.Alike w := World.elapse_alike hw _
      exact (halike (hu.landings.trans (ht.landings.trans hw))).trans (hu.trans ht)
  | writeBack row next => exact hp.elim

theorem run_rowless_bind (conditions : Conditions) {p : Plan ε α} (hp : p.Only Call.Rowless)
    {u w : World} (hu : u.Similar w) (f : α → Plan ε β) :
    ∃ v, v.Similar w ∧ (u.landings = [] → v.Alike u) ∧ (p.bind f).run conditions .never u =
      match p.eval (w.answers conditions) with
      | .ok a => (f a).run conditions .never v
      | .error e => (some (.error e), v) := by
  obtain ⟨v, hv, hvu, halike⟩ := run_rowless conditions hp u
  have heval : p.eval (u.answers conditions) = p.eval (w.answers conditions) :=
    hp.eval_congr fun c hc => hu.answer hc
  refine ⟨v, hvu.trans hu, halike, ?_⟩
  rw [run_bind, hv, heval]
  cases p.eval (w.answers conditions) <;> rfl

end Plan
end FleetBoot
