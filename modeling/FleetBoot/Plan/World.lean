import FleetBoot.Plan.Call
import FleetBoot.Plan.Deadline
import FleetBoot.Plan.WriteBack

/-! The database and the object store as time passes. Inserts that nobody waits for land when they
are due. -/
namespace FleetBoot

/-- An insert that nobody waits for. -/
structure Landing where
  kind : Kind
  row : Assignment kind
  due : Nat

structure World where
  store : Store := {}
  objects : ObjectStore := {}
  now : Nat := 0
  landings : List Landing := []

/-- How calls behave: how long each takes, the answers that are given without a call, and the
inserts that crash. -/
structure Conditions where
  delay : Call → Nat := fun _ => 0
  reply : (c : Call) → Option c.Answer := fun _ => none
  crashes : Call → Bool := fun _ => false

/-- Whether a write-back would reach the database under these conditions. -/
def Conditions.admits (c : Conditions) {k : Kind} (row : Assignment k) : Bool :=
  c.delay (.insert row) ≤ WriteBack.limit && !c.crashes (.insert row) &&
    (c.reply (.insert row)).isNone

/-- Inserts the row if the device has none. -/
def Store.land (s : Store) (l : Landing) : Store :=
  match s.insert l.row with
  | .ok s => s
  | .error _ => s

namespace World

/-- Lets time pass up to `t`. -/
def elapse (w : World) (t : Nat) : World :=
  { w with
    store := ((w.landings.filter (·.due ≤ t)).mergeSort (·.due ≤ ·.due)).foldl Store.land w.store
    now := t
    landings := w.landings.filter (t < ·.due) }

/-- Takes the new database if there is one. -/
def commit (w : World) : Except StoreError Store → Except StoreError Unit × World
  | .ok s => (.ok (), { w with store := s })
  | .error e => (.error e, w)

/-- The effect of a call, at once. -/
def perform (w : World) : (c : Call) → c.Answer × World
  | .find k identity limit => (.ok ((w.store.shelf k).find identity limit), w)
  | .networkDefault k ip => (.ok ((w.store.shelf k).networkDefault ip), w)
  | .definition id => (.ok (w.store.payloads.lookup? id), w)
  | .available k => (.ok (w.store.shelf k).available, w)
  | .insert row => w.commit (w.store.insert row)
  | .update row =>
      let (changed, store) := w.store.update row
      (.ok changed, { w with store := store })
  | .parameters id => (.ok (w.store.parametersOf? id), w)
  | .create image => w.commit (w.store.register (k := .image) image)
  | .delete key =>
      let (image, store) := w.store.remove .image key
      (.ok image, { w with store := store })
  | .presign signing =>
      let (answer, objects) := w.objects.presign signing
      (answer, { w with objects := objects })
  | .fetch bucket key =>
      let (answer, objects) := w.objects.fetch bucket key
      (answer, { w with objects := objects })

/-- The answer to a call: the one that the conditions give, or else its effect. -/
def answer (w : World) (conditions : Conditions) (c : Call) : c.Answer × World :=
  match conditions.reply c with
  | some a => (a, w)
  | none => w.perform c

/-- Starts a write-back and waits for it while the deadline lets it. -/
def writeBack (w : World) (conditions : Conditions) (d : Deadline) {k : Kind}
    (row : Assignment k) : WriteBack × World :=
  let delay := conditions.delay (.insert row)
  let wait := d.wait w.now (min delay WriteBack.limit)
  if wait.finished then
    let w := w.elapse wait.time
    if WriteBack.limit < delay then (.timedOut, w)
    else if conditions.crashes (.insert row) then (.crashed, w)
    else
      let (a, w) := w.answer conditions (.insert row)
      (.ofAnswer a, w)
  else
    let started : World :=
      if conditions.admits row then { w with landings := w.landings ++ [⟨k, row, w.now + delay⟩] }
      else w
    (.detached, started.elapse wait.time)

end World
end FleetBoot
