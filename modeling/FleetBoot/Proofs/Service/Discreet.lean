import FleetBoot.Http.Response
import FleetBoot.Proofs.Plan.Discreet
import FleetBoot.Proofs.Service.Creation
import FleetBoot.Proofs.Service.Pick

/-! Operations keep back how a call failed: what they do next and what the caller is told of it are
the same for every failure of one sort. -/
namespace FleetBoot

/-- The caller is told the same of both errors, and neither says that the time ran out. -/
structure ServiceError.Alike (x y : ServiceError) : Prop where
  told : Response.ofError x = Response.ofError y
  timely : x ≠ .cancelled

namespace ServiceError

theorem Alike.refl {e : ServiceError} (h : e ≠ .cancelled) : e.Alike e := ⟨rfl, h⟩

end ServiceError

namespace Service
variable {k : Kind} {s : Service}

end Service

end FleetBoot
