import FleetBoot.Plan.Basic
import FleetBoot.Plan.World

/-! Carrying out one plan in the world, up to a deadline. -/
namespace FleetBoot.Plan
variable {ε α : Type}

/-- The result of a plan, or nothing if the deadline passed first, and the world after it. A call
that is given up has no effect. -/
def run (conditions : Conditions) (d : Deadline) :
    Plan ε α → World → Option (Except ε α) × World
  | .done a, w => (some (.ok a), w)
  | .fail e, w => (some (.error e), w)
  | .call c next, w =>
      let wait := d.wait w.now (conditions.delay c)
      let w := w.elapse wait.time
      if wait.finished then
        let (answer, w) := w.answer conditions c
        run conditions d (next answer) w
      else (none, w)
  | .writeBack row next, w =>
      let (outcome, w) := w.writeBack conditions d row
      run conditions d (next outcome) w

end FleetBoot.Plan
