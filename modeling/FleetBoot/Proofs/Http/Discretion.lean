import FleetBoot.Http.Server
import FleetBoot.Proofs.Plan.Faults
import FleetBoot.Proofs.Service.Discreet

/-! What requests come to: every one is answered at once, or by one operation of the service.
Callers are told that a call failed, but not how, and those that run out of time are told nothing.
-/
namespace FleetBoot

namespace Plan
variable {ε α : Type} {alike : ε → ε → Prop}

end Plan

namespace Server
variable {s : Server} {request : Request} {w : World} {plan : Plan ServiceError Content}

end Server
end FleetBoot
