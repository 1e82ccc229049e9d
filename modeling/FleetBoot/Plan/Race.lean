import FleetBoot.Plan.Run

/-! Several plans in one world, one call at a time in any order. -/
namespace FleetBoot
variable {ε α : Type}

namespace Plan

/-- Carries out the first call of a plan, at once. -/
def advance (conditions : Conditions) : Plan ε α → World → Plan ε α × World
  | .call c next, w =>
      let (answer, w) := w.answer conditions c
      (next answer, w)
  | .writeBack row next, w =>
      let (answer, w) := w.answer conditions (.insert row)
      (next (.ofAnswer answer), w)
  | p, w => (p, w)

/-- Goes on without waiting for the write-back that comes first in a plan. -/
def detach : Plan ε α → World → Plan ε α × World
  | @Plan.writeBack _ _ k row next, w =>
      (next .detached, { w with landings := w.landings ++ [⟨k, row, w.now⟩] })
  | p, w => (p, w)

/-- The result of a plan that is at its end. -/
def result? : Plan ε α → Option (Except ε α)
  | .done a => some (.ok a)
  | .fail e => some (.error e)
  | _ => none

end Plan

/-- Lets one of the inserts that nobody waits for land. -/
def World.land (w : World) (j : Nat) : World :=
  match w.landings[j]? with
  | some l => { w with store := w.store.land l, landings := w.landings.eraseIdx j }
  | none => w

structure Race (ε α : Type) where
  world : World
  plans : List (Plan ε α)

namespace Race

/-- What can happen next: a plan makes its next call or leaves its write-back alone, or an insert
that was left alone lands. -/
inductive Move where
  | advance (i : Nat)
  | detach (i : Nat)
  | land (j : Nat)

/-- Lets the `i`th plan take a step. -/
def stepWith (r : Race ε α) (i : Nat) (step : Plan ε α → World → Plan ε α × World) : Race ε α :=
  match r.plans[i]? with
  | some p =>
      let (p, w) := step p r.world
      ⟨w, r.plans.set i p⟩
  | none => r

def move (conditions : Conditions) (r : Race ε α) : Move → Race ε α
  | .advance i => r.stepWith i (Plan.advance conditions)
  | .detach i => r.stepWith i Plan.detach
  | .land j => { r with world := r.world.land j }

def play (conditions : Conditions) (r : Race ε α) (moves : List Move) : Race ε α :=
  moves.foldl (move conditions) r

/-- Every one of `n` plans makes one call after another, in turn. -/
def inTurn (n rounds : Nat) : List Move :=
  (List.replicate rounds ((List.range n).map Move.advance)).flatten

def results (r : Race ε α) : List (Except ε α) := r.plans.filterMap Plan.result?

end Race
end FleetBoot
