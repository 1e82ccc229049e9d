import FleetBoot.Plan.Race
import FleetBoot.Proofs.Plan.Rows

/-! The row of a device while any number of plans go on in any order: it stays, and another one takes
its place only by the last call of a plan that is then at its end. -/
namespace FleetBoot
variable {ε α : Type} {good : Call → Except ε α → Prop} {k : Kind}
  {mac : String} {a : Assignment k}

namespace Plan

/-- A step leaves alone what is at its end and the row of a device, unless it ends with an update of
this row. -/
structure Keeps (good : Call → Except ε α → Prop) (k : Kind) (mac : String)
    (step : Plan ε α → World → Plan ε α × World) : Prop where
  ended : ∀ x w, step (.ofExcept x) w = (.ofExcept x, w)
  changes : ∀ p w, p.ChangesLast good → (step p w).1.ChangesLast good
  row : ∀ p w (a : Assignment k), p.ChangesLast good → (w.store.shelf k).row? mac = some a →
    ((step p w).2.store.shelf k).row? mac = some a ∨
      ∃ (b : Assignment k) (x : Except ε α), (step p w).1 = .ofExcept x ∧ good (.update b) x ∧
        ((step p w).2.store.shelf k).row? mac = some b

theorem keeps_advance (conditions : Conditions) : Keeps good k mac (advance conditions) where
  ended x w := by cases x <;> rfl
  changes p w hp := by
    cases hp with
    | done a => exact .done a
    | fail e => exact .fail e
    | call c last rest => exact rest _
    | @writeBack _ row next _ last _ =>
      change (next (.ofAnswer (w.answer conditions (.insert row)).1)).ChangesLast good
      rw [last]
      exact changesLast_ofExcept _
  row p w a hp h := by
    cases hp with
    | done a => exact .inl h
    | fail e => exact .inl h
    | call c last rest => exact row?_answer conditions last h
    | writeBack row last hgood => exact .inl (World.row?_answer_insert conditions row h)

theorem keeps_detach : Keeps good k mac (detach (α := α) (ε := ε)) where
  ended x w := by cases x <;> rfl
  changes p w hp := by
    cases hp with
    | writeBack row last hgood =>
      rw [detach, last]
      exact changesLast_ofExcept _
    | done a => exact .done a
    | fail e => exact .fail e
    | call c last rest => exact .call c last rest
  row p w a _ h := by
    cases p <;> exact .inl h

end Plan

namespace Race

/-- The device has its row or another one that a plan has ended with. -/
structure Kept (good : Call → Except ε α → Prop) (mac : String) (a : Assignment k)
    (r : Race ε α) : Prop where
  plans : ∀ p ∈ r.plans, p.ChangesLast good
  row : ∃ b, (r.world.store.shelf k).row? mac = some b ∧
    (b = a ∨ ∃ (i : Nat) (x : Except ε α), r.plans[i]? = some (Plan.ofExcept x) ∧
      good (.update b) x)

variable {r : Race ε α}

theorem Kept.stepWith (hr : r.Kept good mac a) (i : Nat)
    {step : Plan ε α → World → Plan ε α × World} (hstep : Plan.Keeps good k mac step) :
    (r.stepWith i step).Kept good mac a := by
  unfold Race.stepWith
  cases hp : r.plans[i]? with
  | none => exact hr
  | some p =>
    have hmem : p ∈ r.plans := List.mem_of_getElem? hp
    refine ⟨fun q hq => ?_, ?_⟩
    · rcases List.mem_or_eq_of_mem_set hq with hq | rfl
      · exact hr.plans q hq
      · exact hstep.changes p r.world (hr.plans p hmem)
    · obtain ⟨b, hb, hgiven⟩ := hr.row
      have hi : i < r.plans.length := (List.getElem?_eq_some_iff.mp hp).1
      rcases hstep.row p r.world b (hr.plans p hmem) hb with hsame | ⟨c, x, hx, hgood, hc⟩
      · refine ⟨b, hsame, hgiven.imp_right ?_⟩
        rintro ⟨j, x, hj, hgood⟩
        refine ⟨j, x, ?_, hgood⟩
        rw [List.getElem?_set]
        by_cases hij : i = j
        -- the plan that gave the row is at its end, where a step leaves it
        · subst hij
          cases hp.symm.trans hj
          rw [if_pos rfl, if_pos hi, hstep.ended]
        · rw [if_neg hij, hj]
      · refine ⟨c, hc, .inr ⟨i, x, ?_, hgood⟩⟩
        rw [List.getElem?_set, if_pos rfl, if_pos hi, ← hx]

theorem Kept.move (hr : r.Kept good mac a) (conditions : Conditions) (v : Move) : (r.move conditions v).Kept good mac a := by
  cases v with
  | advance i => exact hr.stepWith i (Plan.keeps_advance conditions)
  | detach i => exact hr.stepWith i Plan.keeps_detach
  | land j =>
    obtain ⟨b, hb, hgiven⟩ := hr.row
    refine ⟨hr.plans, b, ?_, hgiven⟩
    simp only [Race.move, World.land]
    split
    · exact Store.row?_land hb _
    · exact hb

/-- Whatever the order of the steps, the row is kept. -/
theorem Kept.play (hr : r.Kept good mac a) (conditions : Conditions) (moves : List Move) :
    (r.play conditions moves).Kept good mac a := by
  induction moves generalizing r with
  | nil => exact hr
  | cons v moves ih => exact ih (hr.move conditions v)

end Race
end FleetBoot
