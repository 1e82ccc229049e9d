import FleetBoot.Plan.Basic

/-! Plans under fixed answers: which calls they make, how many, and how they come out. -/
namespace FleetBoot
namespace Plan
variable {ε ε' α β : Type}

@[simp] theorem bind_eq (p : Plan ε α) (f : α → Plan ε β) : p >>= f = p.bind f := rfl

@[simp] theorem pure_eq (a : α) : (pure a : Plan ε α) = .done a := rfl

@[simp] theorem map_eq (f : α → β) (p : Plan ε α) : f <$> p = p.bind fun a => .done (f a) := rfl

/-- The result where every call is answered by `ρ`, and a write-back by its insert. -/
def eval (ρ : (c : Call) → c.Answer) : Plan ε α → Except ε α
  | .done a => .ok a
  | .fail e => .error e
  | .call c next => (next (ρ c)).eval ρ
  | .writeBack row next => (next (.ofAnswer (ρ (.insert row)))).eval ρ

@[simp] theorem eval_bind (ρ : (c : Call) → c.Answer) (p : Plan ε α) (f : α → Plan ε β) :
    (p.bind f).eval ρ = (p.eval ρ).bind fun a => (f a).eval ρ := by
  induction p with
  | done a => rfl
  | fail e => rfl
  | call c next ih => exact ih (ρ c)
  | writeBack row next ih => exact ih _

@[simp] theorem eval_mapError (ρ : (c : Call) → c.Answer) (f : ε → ε') (p : Plan ε α) :
    (p.mapError f).eval ρ = (p.eval ρ).mapError f := by
  induction p with
  | done a => rfl
  | fail e => rfl
  | call c next ih => exact ih (ρ c)
  | writeBack row next ih => exact ih _

@[simp] theorem eval_ofExcept (ρ : (c : Call) → c.Answer) (r : Except ε α) :
    (Plan.ofExcept r).eval ρ = r := by cases r <;> rfl

@[simp] theorem eval_ask (ρ : (c : Call) → c.Answer) (c : Call) :
    (Plan.ask c).eval ρ = ρ c := eval_ofExcept ρ (ρ c)

@[simp] theorem eval_attempt (ρ : (c : Call) → c.Answer) (c : Call) :
    (Plan.attempt c : Plan ε c.Answer).eval ρ = .ok (ρ c) := rfl

/-- Whatever the answers, the plan makes no other calls than these, and no write-back. -/
def Only (allowed : Call → Prop) : Plan ε α → Prop
  | .done _ => True
  | .fail _ => True
  | .call c next => allowed c ∧ ∀ a, (next a).Only allowed
  | .writeBack _ _ => False

variable {allowed : Call → Prop}

theorem Only.mono {allowed' : Call → Prop} {p : Plan ε α} (hp : p.Only allowed)
    (h : ∀ c, allowed c → allowed' c) : p.Only allowed' := by
  induction p with
  | done a => trivial
  | fail e => trivial
  | call c next ih => exact ⟨h c hp.1, fun a => ih a (hp.2 a)⟩
  | writeBack row next => exact hp.elim

theorem Only.bind {p : Plan ε α} {f : α → Plan ε β} (hp : p.Only allowed)
    (hf : ∀ a, (f a).Only allowed) : (p.bind f).Only allowed := by
  induction p with
  | done a => exact hf a
  | fail e => trivial
  | call c next ih => exact ⟨hp.1, fun a => ih a (hp.2 a)⟩
  | writeBack row next => exact hp.elim

theorem Only.mapError {p : Plan ε α} (hp : p.Only allowed) (f : ε → ε') :
    (p.mapError f).Only allowed := by
  induction p with
  | done a => trivial
  | fail e => trivial
  | call c next ih => exact ⟨hp.1, fun a => ih a (hp.2 a)⟩
  | writeBack row next => exact hp.elim

theorem only_ofExcept (r : Except ε α) : (Plan.ofExcept r).Only allowed := by
  cases r <;> trivial

theorem only_ask {c : Call} (hc : allowed c) : (Plan.ask c).Only allowed :=
  ⟨hc, fun a => only_ofExcept a⟩

theorem only_attempt {c : Call} (hc : allowed c) :
    (Plan.attempt c : Plan ε c.Answer).Only allowed := ⟨hc, fun _ => trivial⟩

theorem Only.eval_congr {ρ ρ' : (c : Call) → c.Answer} {p : Plan ε α} (hp : p.Only allowed)
    (h : ∀ c, allowed c → ρ c = ρ' c) : p.eval ρ = p.eval ρ' := by
  induction p with
  | done a => rfl
  | fail e => rfl
  | call c next ih =>
    simp only [eval, h c hp.1]
    exact ih _ (hp.2 _)
  | writeBack row next => exact hp.elim

/-- Whatever the answers, the plan ends as `good` says. -/
def Ends (good : Except ε α → Prop) : Plan ε α → Prop
  | .done a => good (.ok a)
  | .fail e => good (.error e)
  | .call _ next => ∀ a, (next a).Ends good
  | .writeBack _ next => ∀ o, (next o).Ends good

theorem Ends.mono {good good' : Except ε α → Prop} {p : Plan ε α} (hp : p.Ends good)
    (h : ∀ x, good x → good' x) : p.Ends good' := by
  induction p with
  | done a => exact h _ hp
  | fail e => exact h _ hp
  | call c next ih => exact fun a => ih a (hp a)
  | writeBack row next ih => exact fun o => ih o (hp o)

theorem Ends.bind {mid : Except ε α → Prop} {good : Except ε β → Prop} {p : Plan ε α}
    {f : α → Plan ε β} (hp : p.Ends mid) (hok : ∀ a, mid (.ok a) → (f a).Ends good)
    (herror : ∀ e, mid (.error e) → good (.error e)) : (p.bind f).Ends good := by
  induction p with
  | done a => exact hok a hp
  | fail e => exact herror e hp
  | call c next ih => exact fun a => ih a (hp a)
  | writeBack row next ih => exact fun o => ih o (hp o)

theorem ends_of_forall {good : Except ε α → Prop} (h : ∀ x, good x) (p : Plan ε α) :
    p.Ends good := by
  induction p with
  | done a => exact h _
  | fail e => exact h _
  | call c next ih => exact ih
  | writeBack row next ih => exact ih

theorem ends_trivial (p : Plan ε α) : p.Ends fun _ => True := ends_of_forall (fun _ => trivial) p

theorem ends_ofExcept {good : Except ε α → Prop} {r : Except ε α} (h : good r) :
    (Plan.ofExcept r).Ends good := by
  cases r <;> exact h

/-- Whatever the answers, the plan ends after at most so many calls and write-backs. -/
inductive Within : Nat → Plan ε α → Prop where
  | done (n : Nat) (a : α) : Within n (.done a)
  | fail (n : Nat) (e : ε) : Within n (.fail e)
  | call {n : Nat} (c : Call) {next : c.Answer → Plan ε α} (h : ∀ a, Within n (next a)) :
      Within (n + 1) (.call c next)
  | writeBack {n : Nat} {k : Kind} (row : Assignment k) {next : WriteBack → Plan ε α}
      (h : ∀ o, Within n (next o)) : Within (n + 1) (.writeBack row next)

theorem Within.le {n m : Nat} {p : Plan ε α} (hp : Within n p) (h : n ≤ m) : Within m p := by
  induction hp generalizing m with
  | done n a => exact .done m a
  | fail n e => exact .fail m e
  | call c next ih =>
    obtain ⟨m, rfl⟩ : ∃ i, m = i + 1 := ⟨m - 1, by omega⟩
    exact .call c fun a => ih a (by omega)
  | writeBack row next ih =>
    obtain ⟨m, rfl⟩ : ∃ i, m = i + 1 := ⟨m - 1, by omega⟩
    exact .writeBack row fun o => ih o (by omega)

theorem Within.bind {n m : Nat} {p : Plan ε α} {f : α → Plan ε β} (hp : Within n p)
    (hf : ∀ a, Within m (f a)) : Within (n + m) (p.bind f) := by
  induction hp with
  | done n a => exact (hf a).le (Nat.le_add_left m n)
  | fail n e => exact .fail _ e
  | @call n c next _ ih =>
    rw [Nat.add_right_comm]
    exact .call c ih
  | @writeBack n k row next _ ih =>
    rw [Nat.add_right_comm]
    exact .writeBack row ih

theorem Within.mapError {n : Nat} {p : Plan ε α} (hp : Within n p) (f : ε → ε') :
    Within n (p.mapError f) := by
  induction hp with
  | done n a => exact .done n a
  | fail n e => exact .fail n (f e)
  | call c _ ih => exact .call c ih
  | writeBack row _ ih => exact .writeBack row ih

theorem within_ofExcept (r : Except ε α) : Within 0 (Plan.ofExcept r) := by
  cases r with
  | ok a => exact .done 0 a
  | error e => exact .fail 0 e

theorem within_ask (c : Call) : Within 1 (Plan.ask c) := .call c within_ofExcept

theorem within_attempt (c : Call) : Within 1 (Plan.attempt c : Plan ε c.Answer) :=
  .call c fun a => .done 0 a

end Plan
end FleetBoot
