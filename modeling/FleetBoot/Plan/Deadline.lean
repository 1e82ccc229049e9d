/-! When a request gives up, and what it waits for until then. Times are in milliseconds. -/
namespace FleetBoot

/-- The time at which a request gives up, if it ever does. -/
structure Deadline where
  time : Option Nat

/-- When a wait ended, and whether what was waited for had come by then. -/
structure Wait where
  finished : Bool
  time : Nat
  deriving DecidableEq

/-- Why a wait gives nothing. -/
inductive WaitError where
  | deadlineExceeded
  deriving DecidableEq

def WaitError.message : WaitError → String
  | .deadlineExceeded => "request deadline exceeded"

/-- What a wait gives for `value`: the value itself, if it had come by then. -/
def Wait.result {α : Type} (w : Wait) (value : α) : Except WaitError α :=
  if w.finished then .ok value else .error .deadlineExceeded

namespace Deadline

def never : Deadline := ⟨none⟩

/-- The deadline of a request that starts `now`. -/
def start (now : Nat) (timeout : Option Nat) : Deadline := ⟨timeout.map (now + ·)⟩

def passed (d : Deadline) (now : Nat) : Bool :=
  match d.time with
  | none => false
  | some t => t ≤ now

/-- Waits for what takes `delay`. After the deadline nothing is waited for. -/
def wait (d : Deadline) (now delay : Nat) : Wait :=
  match d.time with
  | none => ⟨true, now + delay⟩
  | some t =>
      if t ≤ now then ⟨false, now⟩
      else if now + delay ≤ t then ⟨true, now + delay⟩
      else ⟨false, t⟩

theorem le_wait_time (d : Deadline) (now delay : Nat) : now ≤ (d.wait now delay).time := by
  unfold wait
  split
  · exact Nat.le_add_right now delay
  · split
    · exact Nat.le_refl now
    · next h =>
      split
      · exact Nat.le_add_right now delay
      · exact Nat.le_of_lt (Nat.lt_of_not_le h)

/-- The waits for one thing after another. -/
def waits (d : Deadline) : Nat → List Nat → List Wait
  | _, [] => []
  | now, delay :: rest =>
      let w := d.wait now delay
      w :: d.waits w.time rest

/-- The time after the last of the waits. -/
def waitsEnd (d : Deadline) (now : Nat) (delays : List Nat) : Nat :=
  delays.foldl (fun t delay => (d.wait t delay).time) now

end Deadline
end FleetBoot
