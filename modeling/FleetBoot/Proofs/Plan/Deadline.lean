import FleetBoot.Proofs.Plan.Change

/-! Runs up to a deadline: they end by it, and what they give in time is what they give without
delays. -/
namespace FleetBoot

/-- The same answers and crashes, at once. -/
def Conditions.prompt (conditions : Conditions) : Conditions :=
  { conditions with delay := fun _ => 0 }

namespace Deadline

/-- What starts by the deadline is given up by the deadline. -/
theorem wait_time_le {t now : Nat} (h : now ≤ t) (delay : Nat) :
    ((⟨some t⟩ : Deadline).wait now delay).time ≤ t := by
  unfold wait
  dsimp only
  split
  · exact h
  · split
    · assumption
    · exact Nat.le_refl t

end Deadline

namespace World

/-- A write-back takes as long as it is waited for. -/
theorem now_writeBack (w : World) (conditions : Conditions) (d : Deadline) {k : Kind}
    (row : Assignment k) :
    (w.writeBack conditions d row).2.now =
      (d.wait w.now (min (conditions.delay (.insert row)) WriteBack.limit)).time := by
  unfold writeBack
  dsimp only
  split
  · split
    · rfl
    · split
      · rfl
      · exact now_answer _ conditions (.insert row)
  · rfl

end World

namespace Plan
variable {ε α : Type} {conditions : Conditions} {good : Call → Except ε α → Prop} {p : Plan ε α}
  {v w : World}

theorem run_now_le (p : Plan ε α) (conditions : Conditions) {t : Nat} (h : w.now ≤ t) :
    (p.run conditions ⟨some t⟩ w).2.now ≤ t := by
  induction p generalizing w with
  | done a => exact h
  | fail e => exact h
  | call c next ih =>
    have hwait := Deadline.wait_time_le h (conditions.delay c)
    rw [run_call]
    dsimp only
    split
    · apply ih
      rw [World.now_answer]
      exact hwait
    · exact hwait
  | writeBack row next ih =>
    rw [run_writeBack]
    apply ih
    rw [World.now_writeBack]
    exact Deadline.wait_time_le h _

/-- Without a deadline every run comes to a result. -/
theorem run_never (p : Plan ε α) (conditions : Conditions) (w : World) :
    (p.run conditions .never w).1 ≠ none := by
  induction p generalizing w with
  | done a => simp [run]
  | fail e => simp [run]
  | call c next ih => exact ih _ _
  | writeBack row next ih => exact ih _ _

/-- A run comes to nothing, or to what it comes to without delays and without a deadline. -/
theorem run_prompt (hp : p.ChangesLast good) (hv : v.Alike w) (hw : w.landings = []) (d : Deadline) :
    (p.run conditions d v).1 = none ∨
      (p.run conditions d v).1 = (p.run conditions.prompt .never w).1 := by
  induction hp generalizing v w with
  | done a => exact .inr rfl
  | fail e => exact .inr rfl
  | @call c next last _ ih =>
    -- `t` and `u` differ by their clocks only, so the call is answered alike in both
    let t := v.elapse (d.wait v.now (conditions.delay c)).time
    let u := w.elapse (w.now + 0)
    have ht : t.Alike v := World.elapse_alike (hv.landings.trans hw) _
    have hu : u.Alike w := World.elapse_alike hw _
    have htu : t.Alike u := ht.trans (hv.trans hu.symm)
    obtain ⟨hanswer, halike⟩ := htu.answer conditions c
    have hlandings : (u.answer conditions c).2.landings = [] :=
      (World.landings_answer conditions u c).trans (hu.landings.trans hw)
    have hprompt : (Plan.call c next).run conditions.prompt .never w =
        (next (u.answer conditions c).1).run conditions.prompt .never (u.answer conditions c).2 := by
      rw [run_call, Deadline.wait_never]
      rfl
    rw [hprompt, run_call]
    dsimp only
    split
    · rw [← hanswer]
      exact ih _ halike hlandings
    · exact .inl rfl
  | writeBack row last hgood =>
    right
    rw [run_writeBack, run_writeBack]
    dsimp only
    rw [last, last, run_ofExcept, run_ofExcept]

end Plan
end FleetBoot
