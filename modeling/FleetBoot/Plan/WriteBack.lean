import FleetBoot.Store.Error

/-! Keeping for a device what it was given by default. The insert has a time limit of its own and
goes on when the request no longer waits for it. -/
namespace FleetBoot

/-- What the request knows of its write-back. -/
inductive WriteBack where
  | inserted
  | alreadyExists
  | failed (cause : StoreError)
  | timedOut
  | crashed
  | detached
  deriving DecidableEq

namespace WriteBack

/-- How long an insert may take, in milliseconds. -/
def limit : Nat := 5000

def ofAnswer : Except StoreError Unit → WriteBack
  | .ok () => .inserted
  | .error e => if e.isUnique then .alreadyExists else .failed e

/-- Why it failed, as far as that is known. -/
def reason? : WriteBack → Option String
  | .failed cause => some cause.message
  | .timedOut => some "write-back timed out"
  | _ => none

end WriteBack
end FleetBoot
