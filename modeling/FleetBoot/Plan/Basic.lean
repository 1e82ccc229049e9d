import FleetBoot.Plan.Call
import FleetBoot.Plan.WriteBack

/-! What a request does: a tree of calls that branches on their answers and ends with a result or an
error. -/
namespace FleetBoot

inductive Plan (ε α : Type) where
  | done (result : α)
  | fail (error : ε)
  | call (c : Call) (next : c.Answer → Plan ε α)
  | writeBack {k : Kind} (row : Assignment k) (next : WriteBack → Plan ε α)

namespace Plan
variable {ε ε' α β : Type}

def bind : Plan ε α → (α → Plan ε β) → Plan ε β
  | .done a, f => f a
  | .fail e, _ => .fail e
  | .call c next, f => .call c fun answer => (next answer).bind f
  | .writeBack row next, f => .writeBack row fun outcome => (next outcome).bind f

instance : Monad (Plan ε) where
  pure := .done
  bind := .bind

/-- The same calls, with another word for each error. -/
def mapError (f : ε → ε') : Plan ε α → Plan ε' α
  | .done a => .done a
  | .fail e => .fail (f e)
  | .call c next => .call c fun answer => (next answer).mapError f
  | .writeBack row next => .writeBack row fun outcome => (next outcome).mapError f

def ofExcept : Except ε α → Plan ε α
  | .ok a => .done a
  | .error e => .fail e

/-- One call. -/
def ask (c : Call) : Plan c.Error c.Reply := .call c ofExcept

/-- One call whose failure is a result too. -/
def attempt (c : Call) : Plan ε c.Answer := .call c .done

/-- One write-back. It never fails. -/
def keep {k : Kind} (row : Assignment k) : Plan ε WriteBack := .writeBack row .done

@[simp] theorem bind_done (a : α) (f : α → Plan ε β) : (Plan.done a).bind f = f a := rfl

@[simp] theorem bind_fail (e : ε) (f : α → Plan ε β) : (Plan.fail e).bind f = .fail e := rfl

@[simp] theorem bind_call (c : Call) (next : c.Answer → Plan ε α) (f : α → Plan ε β) :
    (Plan.call c next).bind f = .call c fun answer => (next answer).bind f := rfl

@[simp] theorem bind_writeBack {k : Kind} (row : Assignment k) (next : WriteBack → Plan ε α)
    (f : α → Plan ε β) :
    (Plan.writeBack row next).bind f = .writeBack row fun outcome => (next outcome).bind f := rfl

theorem bind_pure (p : Plan ε α) : p.bind .done = p := by
  induction p with
  | done a => rfl
  | fail e => rfl
  | call c next ih => simp [ih]
  | writeBack row next ih => simp [ih]

theorem bind_assoc {γ : Type} (p : Plan ε α) (f : α → Plan ε β) (g : β → Plan ε γ) :
    (p.bind f).bind g = p.bind fun a => (f a).bind g := by
  induction p with
  | done a => rfl
  | fail e => rfl
  | call c next ih => simp [ih]
  | writeBack row next ih => simp [ih]

instance : LawfulMonad (Plan ε) :=
  LawfulMonad.mk' _ (fun p => bind_pure p) (fun _ _ => rfl) bind_assoc

end Plan
end FleetBoot
