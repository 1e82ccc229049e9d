import FleetBoot.Proofs.Plan.Deadline

/-! Plans under answers that are not just any: what they succeed with and what they fail with if
every call is answered as it can be. -/
namespace FleetBoot.Plan
variable {ε ε' α β : Type}

/-- If every answer is possible, the plan succeeds as `good` says or fails as `bad` says. -/
def EndsUnder (possible : (c : Call) → c.Answer → Prop) (good : α → Prop) (bad : ε → Prop) :
    Plan ε α → Prop
  | .done a => good a
  | .fail e => bad e
  | .call c next => ∀ a, possible c a → (next a).EndsUnder possible good bad
  | .writeBack _ next => ∀ o, (next o).EndsUnder possible good bad

variable {possible : (c : Call) → c.Answer → Prop} {good good' : α → Prop} {bad bad' : ε → Prop}
  {p : Plan ε α}

theorem EndsUnder.mono (h : p.EndsUnder possible good bad) (hgood : ∀ a, good a → good' a)
    (hbad : ∀ e, bad e → bad' e) : p.EndsUnder possible good' bad' := by
  induction p with
  | done a => exact hgood a h
  | fail e => exact hbad e h
  | call c next ih => exact fun a ha => ih a (h a ha)
  | writeBack row next ih => exact fun o => ih o (h o)

theorem EndsUnder.bind {mid : α → Prop} {good : β → Prop} {f : α → Plan ε β}
    (h : p.EndsUnder possible mid bad) (hf : ∀ a, mid a → (f a).EndsUnder possible good bad) :
    (p.bind f).EndsUnder possible good bad := by
  induction p with
  | done a => exact hf a h
  | fail e => exact h
  | call c next ih => exact fun a ha => ih a (h a ha)
  | writeBack row next ih => exact fun o => ih o (h o)

theorem EndsUnder.mapError {bad : ε' → Prop} {f : ε → ε'}
    (h : p.EndsUnder possible good fun e => bad (f e)) :
    (p.mapError f).EndsUnder possible good bad := by
  induction p with
  | done a => exact h
  | fail e => exact h
  | call c next ih => exact fun a ha => ih a (h a ha)
  | writeBack row next ih => exact fun o => ih o (h o)

theorem endsUnder_ofExcept {r : Except ε α} (hgood : ∀ a, r = .ok a → good a)
    (hbad : ∀ e, r = .error e → bad e) : (Plan.ofExcept r).EndsUnder possible good bad := by
  cases r with
  | ok a => exact hgood a rfl
  | error e => exact hbad e rfl

/-- What holds of the ends of a plan under all possible answers holds of every run that ends. -/
theorem EndsUnder.run {conditions : Conditions} {d : Deadline} {w : World} {r : Except ε α}
    (h : p.EndsUnder possible good bad)
    (hpossible : ∀ c (v : World), possible c (v.answer conditions c).1)
    (hr : (p.run conditions d w).1 = some r) :
    (∀ a, r = .ok a → good a) ∧ ∀ e, r = .error e → bad e := by
  induction p generalizing w with
  | done a =>
    cases hr
    exact ⟨by rintro _ ⟨⟩; exact h, nofun⟩
  | fail e =>
    cases hr
    exact ⟨nofun, by rintro _ ⟨⟩; exact h⟩
  | call c next ih =>
    rw [run_call] at hr
    dsimp only at hr
    split at hr
    · exact ih _ (h _ (hpossible c _)) hr
    · cases hr
  | writeBack row next ih => exact ih _ (h _) hr

end FleetBoot.Plan
