import FleetBoot.Proofs.Plan.Elapse
import FleetBoot.Proofs.Plan.Rows
import FleetBoot.Proofs.Plan.Waits
import Mathlib

/-! When a write-back is answered, with what, and what becomes of its insert. The request waits for
the shortest of three times: what is left until its deadline, what the insert takes, and the limit.
The insert goes on without the request, up to the limit. -/
namespace FleetBoot

/-- How an insert ends that nobody cuts short: the row is in the database, which is then `after`, or
it is not. The answer may be that it is without a call: such a success is `feigned`. -/
inductive InsertEnd where
  | stored (after : Store)
  | feigned
  | failed (cause : StoreError)
  | crashed

namespace World
variable {w : World} {conditions : Conditions} {d : Deadline} {k : Kind} {row : Assignment k}

/-- The world as an insert leaves it that ends now. -/
def ending (w : World) : InsertEnd → World
  | .stored after => { w with store := after }
  | _ => w

end World
end FleetBoot
