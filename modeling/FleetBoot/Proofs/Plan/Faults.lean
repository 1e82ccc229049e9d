import FleetBoot.Proofs.Plan.Deadline

/-! Runs in which calls to the database may fail. A plan that gives up at the first failure succeeds
only as it would without faults and without a deadline. -/
namespace FleetBoot

/-- Calls to the database reach it, or fail without an effect. -/
def Conditions.Honest (conditions : Conditions) : Prop :=
  ∀ c : Call, ¬ c.OnObjects → ∀ a ∈ conditions.reply c, ∃ e, a = .error e

theorem Conditions.Faultless.honest {conditions : Conditions} (h : conditions.Faultless) :
    conditions.Honest := by
  intro c hc a ha
  rw [h c hc] at ha
  cases ha

/-- A call that succeeds has reached the database. -/
theorem World.answer_of_ok {conditions : Conditions} (hc : conditions.Honest) {w : World} {c : Call}
    (hcall : ¬ c.OnObjects) {a : c.Reply} (h : (w.answer conditions c).1 = .ok a) :
    w.answer conditions c = w.perform c := by
  unfold World.answer at h ⊢
  split at h
  · next answer hreply =>
    obtain ⟨e, rfl⟩ := hc c hcall answer hreply
    cases h
  · rfl

namespace Plan
variable {ε α β : Type} {conditions conditions' : Conditions} {d : Deadline} {v w : World}
  {p : Plan ε α}

theorem Ends.run {good : Except ε α → Prop} (hp : p.Ends good) {x : Except ε α}
    (h : (p.run conditions d w).1 = some x) : good x := by
  induction p generalizing w with
  | done a =>
    cases h
    exact hp
  | fail e =>
    cases h
    exact hp
  | call c next ih =>
    rw [run_call] at h
    dsimp only at h
    split at h
    · exact ih _ (hp _) h
    · cases h
  | writeBack row next ih => exact ih _ (hp _) h

/-- All calls are to the database, and where one fails the plan fails. -/
def Strict : Plan ε α → Prop
  | .done _ => True
  | .fail _ => True
  | .call c next => ¬ c.OnObjects ∧ (∀ e, ∃ x, next (.error e) = .fail x) ∧
      ∀ a, (next (.ok a)).Strict
  | .writeBack _ _ => False

theorem strict_ofExcept (x : Except ε α) : (Plan.ofExcept x).Strict := by cases x <;> trivial

theorem Strict.bind {f : α → Plan ε β} (hp : p.Strict) (hf : ∀ a, (f a).Strict) :
    (p.bind f).Strict := by
  induction p with
  | done a => exact hf a
  | fail e => trivial
  | writeBack row next => exact hp.elim
  | call c next ih =>
    obtain ⟨hc, herror, hok⟩ := hp
    refine ⟨hc, fun e => ?_, fun a => ih (.ok a) (hok a)⟩
    obtain ⟨x, hx⟩ := herror e
    exact ⟨x, congrArg (Plan.bind · f) hx⟩

/-- What succeeds comes out, and leaves the database, as it does without faults. -/
theorem Strict.run_ok (hp : p.Strict) (hc : conditions.Honest) (hc' : conditions'.Faultless)
    (hv : v.Alike w) (hw : w.landings = []) {a : α}
    (h : (p.run conditions d v).1 = some (.ok a)) :
    ∃ u, p.run conditions' .never w = (some (.ok a), u) ∧ (p.run conditions d v).2.Alike u := by
  induction p generalizing v w with
  | done b =>
    cases h
    exact ⟨w, rfl, hv⟩
  | fail e => cases h
  | writeBack row next => exact hp.elim
  | call c next ih =>
    obtain ⟨hcall, herror, hok⟩ := hp
    let t := v.elapse (d.wait v.now (conditions.delay c)).time
    let t' := w.elapse (w.now + conditions'.delay c)
    have ht' : t'.Alike w := World.elapse_alike hw _
    have ht : t.Alike t' :=
      (World.elapse_alike (hv.landings.trans hw) _).trans (hv.trans ht'.symm)
    have hrun' : (Plan.call c next).run conditions' .never w =
        (next (t'.perform c).1).run conditions' .never (t'.perform c).2 := by
      rw [← World.answer_eq_perform hc' hcall]
      rfl
    rw [hrun', run_call]
    rw [run_call] at h
    dsimp only at h ⊢
    split at h
    · next hwait =>
      simp only [hwait, if_true]
      change ((next (t.answer conditions c).1).run conditions d (t.answer conditions c).2).1 =
        some (.ok a) at h
      change ∃ u, _ ∧ ((next (t.answer conditions c).1).run conditions d
        (t.answer conditions c).2).2.Alike u
      cases hresult : (t.answer conditions c).1 with
      | error e =>
        obtain ⟨x, hx⟩ := herror e
        rw [hresult, hx] at h
        cases h
      | ok b =>
        -- the call was carried out, and so it is in the run without faults
        have hperform := World.answer_of_ok hc hcall hresult
        obtain ⟨hsame, halike⟩ := ht.perform c
        have hlandings : (t'.perform c).2.landings = [] := by
          rw [← World.answer_eq_perform hc' hcall, World.landings_answer, ht'.landings, hw]
        rw [hresult, hperform] at h
        rw [← hsame, ← hperform, hresult, hperform]
        exact ih (.ok b) (hok b) halike hlandings h
    · cases h

end Plan
end FleetBoot
