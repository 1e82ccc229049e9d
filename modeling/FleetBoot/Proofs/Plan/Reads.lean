import FleetBoot.Proofs.Plan.World

/-! Plans that only read: how long they take, and what they give when the deadline lets them end. -/
namespace FleetBoot

namespace Deadline
variable {d : Deadline} {now later delay : Nat}

@[simp] theorem passed_never (now : Nat) : never.passed now = false := rfl

theorem passed_of_le (hle : now ≤ later) (h : d.passed later = false) : d.passed now = false := by
  unfold passed at h ⊢
  split
  · rfl
  · next t ht =>
    simp only [ht, decide_eq_false_iff_not] at h ⊢
    omega

/-- What ends before the deadline is waited for. -/
theorem wait_of_not_passed (h : d.passed (now + delay) = false) :
    d.wait now delay = ⟨true, now + delay⟩ := by
  unfold passed at h
  unfold wait
  split
  · rfl
  · next t ht =>
    simp only [ht, decide_eq_false_iff_not] at h
    rw [if_neg (by omega), if_pos (by omega)]

end Deadline

/-- Calls that only read behave the same. -/
def Conditions.SameReads (a b : Conditions) : Prop :=
  ∀ c : Call, c.Reads → a.delay c = b.delay c ∧ a.reply c = b.reply c

theorem Conditions.SameReads.refl (a : Conditions) : a.SameReads a := fun _ _ => ⟨rfl, rfl⟩

namespace World
variable {conditions : Conditions} {v w : World}

/-- Worlds that are alike answer a call alike, and stay alike. -/
theorem Alike.perform (h : v.Alike w) (c : Call) :
    (v.perform c).1 = (w.perform c).1 ∧ (v.perform c).2.Alike (w.perform c).2 := by
  obtain ⟨store, objects, now, landings⟩ := v
  obtain ⟨store', objects', now', landings'⟩ := w
  obtain ⟨rfl, hobjects, rfl⟩ : store = store' ∧ objects.Alike objects' ∧ landings = landings' :=
    ⟨h.store, h.objects, h.landings⟩
  have hcommit (x : Except StoreError Store) (n n' : Nat) :
      (commit ⟨store, objects, n, landings⟩ x).1 = (commit ⟨store, objects', n', landings⟩ x).1 ∧
        (commit ⟨store, objects, n, landings⟩ x).2.Alike
          (commit ⟨store, objects', n', landings⟩ x).2 := by
    cases x with
    | ok s => exact ⟨rfl, rfl, hobjects, rfl⟩
    | error e => exact ⟨rfl, rfl, hobjects, rfl⟩
  cases c with
  | presign signing =>
    exact ⟨hobjects.presign signing, rfl, ⟨hobjects.objects, hobjects.failing⟩, rfl⟩
  | fetch bucket key =>
    exact ⟨hobjects.fetch bucket key, rfl, ⟨hobjects.objects, hobjects.failing⟩, rfl⟩
  | insert row => exact hcommit (store.insert row) now now'
  | create image => exact hcommit (store.register (k := .image) image) now now'
  | _ => exact ⟨rfl, rfl, hobjects, rfl⟩

theorem Alike.answer (h : v.Alike w) (conditions : Conditions) (c : Call) :
    (v.answer conditions c).1 = (w.answer conditions c).1 ∧
      (v.answer conditions c).2.Alike (w.answer conditions c).2 := by
  unfold World.answer
  split
  · exact ⟨rfl, h⟩
  · exact h.perform c

theorem Alike.answers (h : v.Alike w) (conditions : Conditions) :
    v.answers conditions = w.answers conditions :=
  funext fun c => (h.answer conditions c).1

@[simp] theorem now_answer (w : World) (conditions : Conditions) (c : Call) :
    (w.answer conditions c).2.now = w.now := by
  have hcommit (x : Except StoreError Store) : (w.commit x).2.now = w.now := by cases x <;> rfl
  unfold answer
  split
  · rfl
  · cases c <;> first | rfl | exact hcommit _

end World

namespace Plan
variable {ε α β : Type} {conditions : Conditions} {ρ : (c : Call) → c.Answer} {w : World}
  {d : Deadline}

theorem run_call (conditions : Conditions) (d : Deadline) (c : Call) (next : c.Answer → Plan ε α)
    (w : World) :
    (Plan.call c next).run conditions d w =
      let wait := d.wait w.now (conditions.delay c)
      let r := (w.elapse wait.time).answer conditions c
      if wait.finished then (next r.1).run conditions d r.2 else (none, w.elapse wait.time) := rfl

theorem run_writeBack (conditions : Conditions) (d : Deadline) {k : Kind} (row : Assignment k)
    (next : WriteBack → Plan ε α) (w : World) :
    (Plan.writeBack row next).run conditions d w =
      let r := w.writeBack conditions d row
      (next r.1).run conditions d r.2 := rfl

/-- How long the calls take up to the end or to a write-back, where `ρ` answers every call. -/
def duration (conditions : Conditions) (ρ : (c : Call) → c.Answer) : Plan ε α → Nat
  | .call c next => conditions.delay c + (next (ρ c)).duration conditions ρ
  | _ => 0

/-- A plan that only reads comes out as the answers say, in the time that its calls take, and leaves
all as it was. -/
theorem run_reads {p : Plan ε α} (hp : p.Only Call.Reads) (hw : w.landings = [])
    (hd : d.passed (w.now + p.duration conditions (w.answers conditions)) = false) :
    ∃ v, p.run conditions d w = (some (p.eval (w.answers conditions)), v) ∧ v.Alike w ∧
      v.now = w.now + p.duration conditions (w.answers conditions) := by
  induction p generalizing w with
  | done a => exact ⟨w, rfl, .refl w, rfl⟩
  | fail e => exact ⟨w, rfl, .refl w, rfl⟩
  | writeBack row next => exact hp.elim
  | call c next ih =>
    let t := w.elapse (w.now + conditions.delay c)
    let u := (t.answer conditions c).2
    have ht : t.Alike w := World.elapse_alike hw _
    have hu : u.Alike w := (World.answer_alike conditions hp.1 t).trans ht
    have hnow : u.now = w.now + conditions.delay c := World.now_answer t conditions c
    have ha : (t.answer conditions c).1 = w.answers conditions c := (ht.answer conditions c).1
    have hρ : u.answers conditions = w.answers conditions := hu.answers conditions
    simp only [duration, ← Nat.add_assoc] at hd
    have hwait := Deadline.wait_of_not_passed (Deadline.passed_of_le (Nat.le_add_right _ _) hd)
    obtain ⟨v, hv, hvu, hvnow⟩ := ih (w.answers conditions c) (hp.2 _) (hu.landings.trans hw)
      (by rwa [hnow, hρ])
    refine ⟨v, ?_, hvu.trans hu, by rw [hvnow, hnow, hρ, duration, Nat.add_assoc]⟩
    have hrun : (Plan.call c next).run conditions d w =
        (next (t.answer conditions c).1).run conditions d u := by
      rw [run_call, hwait]
      rfl
    rw [hrun, ha, hv, hρ, eval]

/-- Up to any deadline, what only reads leaves all as it was, and comes to nothing or to what the
answers say. -/
theorem Only.run_cases {p : Plan ε α} (hp : p.Only Call.Reads) (hw : w.landings = [])
    (conditions : Conditions) (d : Deadline) :
    ∃ v, v.Alike w ∧ (p.run conditions d w = (none, v) ∨
      p.run conditions d w = (some (p.eval (w.answers conditions)), v)) := by
  induction p generalizing w with
  | done a => exact ⟨w, .refl w, .inr rfl⟩
  | fail e => exact ⟨w, .refl w, .inr rfl⟩
  | call c next ih =>
    let t := w.elapse (d.wait w.now (conditions.delay c)).time
    have ht : t.Alike w := World.elapse_alike hw _
    have hu : (t.answer conditions c).2.Alike w := (World.answer_alike conditions hp.1 t).trans ht
    have hanswer : (t.answer conditions c).1 = w.answers conditions c := (ht.answer conditions c).1
    rw [run_call]
    dsimp only
    split
    · obtain ⟨v, hv, hrun⟩ := ih (t.answer conditions c).1 (hp.2 _) (hu.landings.trans hw)
      refine ⟨v, hv.trans hu, ?_⟩
      rw [hu.answers] at hrun
      rwa [eval, ← hanswer]
    · exact ⟨t, ht, .inl rfl⟩
  | writeBack row next => exact hp.elim

variable {conditions' : Conditions}

theorem Only.run_congr {p : Plan ε α} (hp : p.Only Call.Reads)
    (hc : conditions.SameReads conditions') (d : Deadline) (w : World) :
    p.run conditions d w = p.run conditions' d w := by
  induction p generalizing w with
  | done a => rfl
  | fail e => rfl
  | call c next ih =>
    obtain ⟨hdelay, hreply⟩ := hc c hp.1
    have hanswer (v : World) : v.answer conditions c = v.answer conditions' c := by
      simp only [World.answer, hreply]
    simp only [run_call, hdelay, hanswer, ih _ (hp.2 _)]
  | writeBack row next => exact hp.elim

/-- What follows goes on with the result of what only reads. -/
theorem run_reads_bind {p : Plan ε α} (hp : p.Only Call.Reads)
    (hc : conditions.SameReads conditions') (hw : w.landings = [])
    (hd : d.passed (w.now + p.duration conditions (w.answers conditions)) = false)
    (f : α → Plan ε β) :
    ∃ v, v.Alike w ∧ v.now = w.now + p.duration conditions (w.answers conditions) ∧
      (p.bind f).run conditions' d w =
        match p.eval (w.answers conditions) with
        | .ok a => (f a).run conditions' d v
        | .error e => (some (.error e), v) := by
  obtain ⟨v, hv, hvw, hnow⟩ := run_reads hp hw hd
  refine ⟨v, hvw, hnow, ?_⟩
  rw [run_bind, ← hp.run_congr hc, hv]
  cases p.eval (w.answers conditions) <;> rfl

end Plan
end FleetBoot
