import FleetBoot.Plan.World

/-! Time that passes in steps. Inserts that are still to come land in the order in which they are
due, and those due at the same time in the order in which they were started, so that it makes no
difference at which times one looks. -/
namespace FleetBoot

namespace Landing
variable {l : Landing} {landings : List Landing}

/-- The order in which inserts land. -/
def inOrder (landings : List Landing) : List Landing := landings.mergeSort (·.due ≤ ·.due)

end Landing

namespace World
variable {w : World} {s t : Nat}

end World
end FleetBoot
