import FleetBoot.Proofs.Plan.Eval

/-! What a plan keeps, and what holds at its end, while its state may change between its calls. -/
namespace FleetBoot

/-- How calls come out in a state, and what may happen to the state before the next call. -/
structure Machine (σ : Type) where
  Valid : σ → Prop
  Later : σ → σ → Prop
  Answers : σ → (c : Call) → c.Answer → σ → Prop
  Keeps : σ → {k : Kind} → Assignment k → WriteBack → σ → Prop
  later_refl : ∀ s, Later s s
  later_trans : ∀ {s t u}, Later s t → Later t u → Later s u

namespace Plan
variable {ε α β σ : Type} {M : Machine σ}

/-- From the state on every step of the plan keeps the state valid, and the result satisfies
`post` in every later state. -/
def Safe (M : Machine σ) (post : Except ε α → σ → Prop) : Plan ε α → σ → Prop
  | .done a, s => ∀ t, M.Valid t → M.Later s t → post (.ok a) t
  | .fail e, s => ∀ t, M.Valid t → M.Later s t → post (.error e) t
  | .call c next, s => ∀ t, M.Valid t → M.Later s t →
      ∀ a u, M.Answers t c a u → M.Valid u ∧ (next a).Safe M post u
  | .writeBack row next, s => ∀ t, M.Valid t → M.Later s t →
      ∀ o u, M.Keeps t row o u → M.Valid u ∧ (next o).Safe M post u

variable {post : Except ε α → σ → Prop} {s t : σ}

theorem Safe.mono {p : Plan ε α} (h : p.Safe M post s) (hst : M.Later s t) :
    p.Safe M post t := by
  cases p with
  | done a => exact fun u hu htu => h u hu (M.later_trans hst htu)
  | fail e => exact fun u hu htu => h u hu (M.later_trans hst htu)
  | call c next => exact fun u hu htu => h u hu (M.later_trans hst htu)
  | writeBack row next => exact fun u hu htu => h u hu (M.later_trans hst htu)

/-- Whatever comes first may happen before the plan begins. -/
theorem Safe.of_later {p : Plan ε α}
    (h : ∀ t, M.Valid t → M.Later s t → p.Safe M post t) : p.Safe M post s := by
  cases p with
  | done a => exact fun t ht hst => h t ht hst t ht (M.later_refl t)
  | fail e => exact fun t ht hst => h t ht hst t ht (M.later_refl t)
  | call c next => exact fun t ht hst => h t ht hst t ht (M.later_refl t)
  | writeBack row next => exact fun t ht hst => h t ht hst t ht (M.later_refl t)

theorem Safe.weaken {post' : Except ε α → σ → Prop} {p : Plan ε α} (h : p.Safe M post s)
    (hpost : ∀ r t, M.Valid t → post r t → post' r t) : p.Safe M post' s := by
  induction p generalizing s with
  | done a => exact fun t ht hst => hpost _ t ht (h t ht hst)
  | fail e => exact fun t ht hst => hpost _ t ht (h t ht hst)
  | call c next ih =>
    intro t ht hst a u ha
    obtain ⟨hu, hn⟩ := h t ht hst a u ha
    exact ⟨hu, ih a hn⟩
  | writeBack row next ih =>
    intro t ht hst o u ho
    obtain ⟨hu, hn⟩ := h t ht hst o u ho
    exact ⟨hu, ih o hn⟩

theorem Safe.bind {post : Except ε β → σ → Prop} {mid : Except ε α → σ → Prop} {p : Plan ε α}
    {f : α → Plan ε β} (h : p.Safe M mid s)
    (hok : ∀ a t, M.Valid t → mid (.ok a) t → (f a).Safe M post t)
    (herror : ∀ e t, M.Valid t → mid (.error e) t → post (.error e) t) :
    (p.bind f).Safe M post s := by
  induction p generalizing s with
  | done a => exact .of_later fun t ht hst => hok a t ht (h t ht hst)
  | fail e => exact fun t ht hst => herror e t ht (h t ht hst)
  | call c next ih =>
    intro t ht hst a u ha
    obtain ⟨hu, hn⟩ := h t ht hst a u ha
    exact ⟨hu, ih a hn⟩
  | writeBack row next ih =>
    intro t ht hst o u ho
    obtain ⟨hu, hn⟩ := h t ht hst o u ho
    exact ⟨hu, ih o hn⟩

theorem safe_ofExcept {r : Except ε α} (h : ∀ t, M.Valid t → M.Later s t → post r t) :
    (Plan.ofExcept r).Safe M post s := by
  cases r with
  | ok a => exact h
  | error e => exact h

/-- A plan all of whose calls have known answers, and leave nothing behind that matters, comes out
as these answers say. -/
theorem Safe.of_only {allowed : Call → Prop} {ρ : (c : Call) → c.Answer} {p : Plan ε α}
    (hp : p.Only allowed)
    (hρ : ∀ c, allowed c → ∀ t a u, M.Valid t → M.Answers t c a u →
      a = ρ c ∧ M.Valid u ∧ M.Later t u)
    (h : ∀ t, M.Valid t → M.Later s t → post (p.eval ρ) t) : p.Safe M post s := by
  induction p generalizing s with
  | done a => exact h
  | fail e => exact h
  | call c next ih =>
    intro t ht hst a u ha
    obtain ⟨rfl, hu, htu⟩ := hρ c hp.1 t a u ht ha
    exact ⟨hu, ih _ (hp.2 _) fun v hv huv =>
      h v hv (M.later_trans hst (M.later_trans htu huv))⟩
  | writeBack row next => exact hp.elim

end Plan
end FleetBoot
