import FleetBoot.Plan.Race
import FleetBoot.Proofs.Plan.Eval

/-! A race in which every plan gets as many turns as it makes calls comes to its end. -/
namespace FleetBoot
variable {ε α : Type}

theorem Plan.Within.result {p : Plan ε α} (h : Plan.Within 0 p) : p.result?.isSome := by
  cases h <;> rfl

theorem Plan.eq_done_of_result {p : Plan ε α} {a : α} (h : p.result? = some (.ok a)) :
    p = .done a := by
  cases p <;> cases h
  rfl

theorem Plan.Within.advance {n : Nat} {p : Plan ε α} (h : Plan.Within n p)
    (conditions : Conditions) (w : World) : Plan.Within (n - 1) (p.advance conditions w).1 := by
  cases h with
  | done n a => exact .done _ a
  | fail n e => exact .fail _ e
  | call c h => exact h _
  | writeBack row h => exact h _

namespace Race

/-- All plans are at their ends. -/
def Finished (r : Race ε α) : Prop := ∀ p ∈ r.plans, p.result?.isSome

/-- The `i`th plan has at most `bound i` calls to make. -/
def Within (bound : Nat → Nat) (r : Race ε α) : Prop :=
  ∀ (i : Nat) (p : Plan ε α), r.plans[i]? = some p → Plan.Within (bound i) p

theorem length_move (conditions : Conditions) (r : Race ε α) (v : Move) :
    (r.move conditions v).plans.length = r.plans.length := by
  cases v with
  | land j => rfl
  | _ i =>
    simp only [Race.move, stepWith]
    split
    · exact List.length_set
    · rfl

theorem length_play (conditions : Conditions) (r : Race ε α) (moves : List Move) :
    (r.play conditions moves).plans.length = r.plans.length := by
  induction moves generalizing r with
  | nil => rfl
  | cons v moves ih => exact (ih _).trans (length_move conditions r v)

/-- Plans that are through and none of which failed are their results. -/
theorem Finished.exists_results {r : Race ε α} (hr : r.Finished)
    (h : ∀ p ∈ r.plans, ∀ x, p.result? = some x → ∃ a, x = .ok a) :
    ∃ results : List α, r.plans = results.map .done := by
  obtain ⟨w, plans⟩ := r
  induction plans with
  | nil => exact ⟨[], rfl⟩
  | cons p plans ih =>
    obtain ⟨x, hx⟩ := Option.isSome_iff_exists.mp (hr p List.mem_cons_self)
    obtain ⟨a, rfl⟩ := h p List.mem_cons_self x hx
    obtain ⟨results, hresults⟩ := ih (fun q hq => hr q (List.mem_cons_of_mem _ hq))
      fun q hq => h q (List.mem_cons_of_mem _ hq)
    refine ⟨a :: results, ?_⟩
    rw [Plan.eq_done_of_result hx, List.map_cons, ← hresults]

theorem Within.advance {bound : Nat → Nat} {r : Race ε α} (h : r.Within bound)
    (conditions : Conditions) (i : Nat) :
    (r.move conditions (.advance i)).Within fun j => if j = i then bound j - 1 else bound j := by
  intro j q hq
  simp only [Race.move, stepWith] at hq
  by_cases hij : j = i
  · subst hij
    cases hp : r.plans[j]? with
    | none => simp [hp] at hq
    | some p =>
      obtain ⟨hj, -⟩ := List.getElem?_eq_some_iff.mp hp
      simp only [hp, List.getElem?_set_self hj, Option.some.injEq] at hq
      subst hq
      simpa using (h j p hp).advance conditions r.world
  · have hq : r.plans[j]? = some q := by
      split at hq
      · simpa [List.getElem?_set_ne (Ne.symm hij)] using hq
      · exact hq
    simpa [hij] using h j q hq

theorem finished_of_within {bound : Nat → Nat} {r : Race ε α} (h : r.Within bound)
    (conditions : Conditions) {moves : List Nat}
    (hm : ∀ i < r.plans.length, bound i ≤ moves.count i) :
    (r.play conditions (moves.map .advance)).Finished := by
  induction moves generalizing r bound with
  | nil =>
    intro p hp
    obtain ⟨i, hi, rfl⟩ := List.getElem_of_mem hp
    have hw := h i _ (List.getElem?_eq_getElem hi)
    have hzero : bound i = 0 := by simpa using hm i hi
    rw [hzero] at hw
    exact hw.result
  | cons v moves ih =>
    refine ih (h.advance conditions v) fun i hi => ?_
    rw [length_move] at hi
    have hi := hm i hi
    rw [List.count_cons] at hi
    split
    · next hv => simp [hv] at hi ⊢; omega
    · next hv => simpa [Ne.symm hv] using hi

end Race
end FleetBoot
