import FleetBoot.Proofs.Plan.Faults
import FleetBoot.Proofs.Service.Operation

/-! The two halves of an assignment: it picks an entry of the catalog, and then it gives the device a
row for it. A key that the catalog does not have is refused by the first half and no later. -/
namespace FleetBoot

namespace Kind

/-- What the caller is told when the device with this address is given an entry. -/
def assigned : {k : Kind} → String → k.Entry → k.Assigned
  | .payload, mac, p => .new mac p
  | .image, mac, i => ⟨mac, i.key⟩

/-- The answer is the entry that was assigned. -/
def Fits : {k : Kind} → k.Assigned → k.Answer → Prop
  | .payload, a, answer => answer = a
  | .image, a, c => c.key = a.key

/-- The first field of a key that has nothing but blanks. -/
def blankField? : {k : Kind} → k.Key → Option String
  | .payload, id => if (Text.trim id).isEmpty then some "payload_id" else none
  | .image, key =>
      if (Text.trim key.tag).isEmpty then some "image_tag"
      else if (Text.trim key.type).isEmpty then some "image_type"
      else none

@[simp] theorem assignedMac_assigned {k : Kind} (mac : String) (e : k.Entry) :
    assignedMac (assigned mac e) = mac := by cases k <;> rfl

end Kind

namespace Service
variable {k : Kind} {w : World} {conditions : Conditions} {raw : String} {identity : Identity}

/-- The key under which the catalog has what is asked for, and what the caller is told when the
device is known too. -/
def pick : {k : Kind} → k.Key → Plan ServiceError (k.Key × (String → k.Assigned))
  | .payload, id => do
      let id ← .ofExcept (require "payload_id" id)
      let catalog ← available .payload
      .ofExcept (requireAvailable id catalog)
      match ← Plan.request (.definition id) with
      | none => .fail (.unavailable .payload id catalog)
      | some payload => return (id, fun mac => .new mac payload)
  | .image, key => do
      let tag ← .ofExcept (require "image_tag" key.tag)
      let type ← .ofExcept (require "image_type" key.type)
      let key : ImageKey := ⟨tag, type⟩
      let catalog ← available .image
      .ofExcept (requireAvailable key catalog)
      return (key, fun mac => ⟨mac, key⟩)

/-- What is left of an assignment when its key is settled. -/
def give (identity : Identity) (found : k.Key × (String → k.Assigned)) :
    Plan ServiceError k.Assigned :=
  (owner k identity).bind fun mac =>
    (write identity (⟨mac, found.1⟩ : Assignment k)).bind fun _ => .done (found.2 mac)

theorem plan_assign_eq (s : Service) (h : Identity.normalize raw = .ok identity) (key : k.Key) :
    (Operation.assign k raw key).plan s = (pick key).bind (give identity) := by
  cases k with
  | payload =>
    simp only [Operation.plan, pick, assignPayload, identify, h, Plan.bind_eq, Plan.pure_eq,
      Plan.bind_assoc, Plan.bind_done]
    congr 1
    funext id
    congr 1
    funext catalog
    congr 1
    funext checked
    congr 1
    funext definition
    cases definition <;> rfl
  | image =>
    simp only [Operation.plan, pick, assignImage, identify, h, Plan.bind_eq, Plan.pure_eq,
      Plan.bind_assoc, Plan.bind_done]
    rfl

theorem plan_assign_of_invalid (s : Service) {cause : IdentityError}
    (h : Identity.normalize raw = .error cause) (key : k.Key) :
    (Operation.assign k raw key).plan s = .fail (.invalidIdentity cause) := by
  cases k <;> simp [Operation.plan, assignPayload, assignImage, identify, h]

theorem strict_request {c : Call} (hc : ¬ c.OnObjects) : (Plan.request c).Strict :=
  ⟨hc, fun _ => ⟨_, rfl⟩, fun _ => trivial⟩

theorem strict_pick (key : k.Key) : (pick key).Strict := by
  cases k with
  | payload =>
    rw [pick]
    generalize require "payload_id" key = required
    refine (Plan.strict_ofExcept required).bind fun id => ?_
    refine (strict_request (c := .available .payload) not_false).bind fun catalog => ?_
    refine (Plan.strict_ofExcept _).bind fun _ => ?_
    refine (strict_request (c := .definition id) not_false).bind fun definition => ?_
    cases definition <;> trivial
  | image =>
    rw [pick]
    generalize require "image_tag" key.tag = tag
    generalize require "image_type" key.type = type
    refine (Plan.strict_ofExcept tag).bind fun tag => (Plan.strict_ofExcept type).bind fun type => ?_
    refine (strict_request (c := .available .image) not_false).bind fun catalog => ?_
    exact (Plan.strict_ofExcept _).bind fun _ => trivial

theorem strict_deviceRow (k : Kind) (identity : Identity) : (deviceRow k identity).Strict :=
  (strict_request (c := .find k identity (rowLimit identity)) not_false).bind
    fun _ => Plan.strict_ofExcept _

theorem strict_owner (k : Kind) (identity : Identity) : (owner k identity).Strict := by
  unfold owner
  split
  · trivial
  · refine (strict_deviceRow k identity).bind fun row => ?_
    cases row <;> trivial

theorem strict_insertRow (row : Assignment k) : (insertRow row).Strict :=
  ⟨not_false, fun _ => ⟨_, rfl⟩, fun _ => trivial⟩

theorem strict_write (identity : Identity) (row : Assignment k) : (write identity row).Strict := by
  refine (strict_request (c := .update row) not_false).bind fun changed => ?_
  split
  · trivial
  · cases identity with
    | mac address => exact strict_insertRow row
    | hostname token suffix => trivial

theorem strict_plan_assign (s : Service) (raw : String) (key : k.Key) :
    ((Operation.assign k raw key).plan s).Strict := by
  cases hraw : Identity.normalize raw with
  | error cause =>
    rw [plan_assign_of_invalid s hraw]
    trivial
  | ok identity =>
    rw [plan_assign_eq s hraw]
    exact (strict_pick key).bind fun found =>
      (strict_owner k identity).bind fun mac => (strict_write identity _).bind fun _ => trivial

theorem only_pick (key : k.Key) : (pick key).Only Call.Reads := by
  cases k with
  | payload =>
    rw [pick]
    generalize require "payload_id" key = required
    refine (Plan.only_ofExcept required).bind fun id => ?_
    refine (Plan.only_request (c := .available .payload) trivial).bind fun catalog => ?_
    refine (Plan.only_ofExcept _).bind fun _ => ?_
    refine (Plan.only_request (c := .definition id) trivial).bind fun definition => ?_
    cases definition <;> trivial
  | image =>
    rw [pick]
    generalize require "image_tag" key.tag = tag
    generalize require "image_type" key.type = type
    refine (Plan.only_ofExcept tag).bind fun tag => (Plan.only_ofExcept type).bind fun type => ?_
    refine (Plan.only_request (c := .available .image) trivial).bind fun catalog => ?_
    exact (Plan.only_ofExcept _).bind fun _ => trivial

theorem eval_available (hc : conditions.Faultless) (w : World) (k : Kind) :
    (available k).eval (w.answers conditions) = .ok (w.store.shelf k).available := by
  rw [available, Plan.eval_request, World.answers_eq_perform hc id]
  rfl

theorem eval_definition (hc : conditions.Faultless) (w : World) (payloadId : String) :
    (Plan.request (.definition payloadId)).eval (w.answers conditions) =
      .ok ((w.store.shelf .payload).lookup? payloadId) := by
  rw [Plan.eval_request, World.answers_eq_perform hc id]
  rfl

theorem eval_require (ρ : (c : Call) → c.Answer) (field value : String) :
    (Plan.ofExcept (require field value)).eval ρ =
      if (Text.trim value).isEmpty then .error (.missingField field) else .ok (Text.trim value) :=
  Plan.eval_ofExcept ρ _

/-- A key is refused if the catalog does not have it. -/
theorem requireAvailable_eq (shelf : Shelf k) (key : k.Key) :
    requireAvailable key shelf.available =
      match shelf.lookup? key with
      | some _ => .ok ()
      | none => .error (.unavailable k key shelf.available) := by
  unfold requireAvailable
  split
  · next h =>
    obtain ⟨e, he⟩ := Shelf.mem_available.mp h
    rw [he]
  · next h =>
    cases he : shelf.lookup? key with
    | none => rfl
    | some e => exact absurd (Shelf.mem_available.mpr ⟨e, he⟩) h

/-- Without faults an assignment goes on with the entry that the catalog has under the trimmed key. -/
theorem eval_pick (hc : conditions.Faultless) (w : World) (key : k.Key) :
    (pick key).eval (w.answers conditions) =
      match Kind.blankField? key, (w.store.shelf k).lookup? (Kind.trimKey key) with
      | some field, _ => .error (.missingField field)
      | none, none => .error
          (.unavailable k (Kind.trimKey key) (w.store.shelf k).available)
      | none, some e => .ok (Kind.trimKey key, fun mac => Kind.assigned mac e) := by
  cases k with
  | payload =>
    rw [pick, Plan.bind_eq, Plan.eval_bind, eval_require, Kind.blankField?]
    split
    · rfl
    · dsimp only [Except.bind, Kind.trimKey]
      rw [Plan.bind_eq, Plan.eval_bind, eval_available hc w]
      dsimp only [Except.bind]
      rw [Plan.bind_eq, Plan.eval_bind, Plan.eval_ofExcept, requireAvailable_eq]
      cases he : (w.store.shelf .payload).lookup? (Text.trim key) with
      | none => rfl
      | some e =>
        dsimp only [Except.bind]
        rw [Plan.bind_eq, Plan.eval_bind, eval_definition hc w, he]
        rfl
  | image =>
    rw [pick, Plan.bind_eq, Plan.eval_bind, eval_require, Kind.blankField?]
    split
    · rfl
    · dsimp only [Except.bind]
      rw [Plan.bind_eq, Plan.eval_bind, eval_require]
      split
      · rfl
      · dsimp only [Except.bind, Kind.trimKey]
        rw [Plan.bind_eq, Plan.eval_bind, eval_available hc w]
        dsimp only [Except.bind]
        rw [Plan.bind_eq, Plan.eval_bind, Plan.eval_ofExcept, requireAvailable_eq]
        cases he : (w.store.shelf .image).lookup? ⟨Text.trim key.tag, Text.trim key.type⟩ with
        | none => rfl
        | some e =>
          have hkey : e.key = ⟨Text.trim key.tag, Text.trim key.type⟩ := Shelf.keyOf_of_lookup? he
          simp only [Except.bind, Plan.pure_eq, Plan.eval, Kind.assigned, hkey]

/-- Not refused for want of the entry. -/
def Stocked {α : Type} (x : Except ServiceError α) : Prop :=
  ∀ (j : Kind) (candidate : j.Key) (available : List j.Key),
    x ≠ .error (.unavailable j candidate available)

theorem Stocked.bind {α β : Type} {p : Plan ServiceError α} {f : α → Plan ServiceError β}
    (hp : p.Ends Stocked) (hf : ∀ a, (f a).Ends Stocked) : (p.bind f).Ends Stocked :=
  Plan.Ends.bind hp (fun a _ => hf a) fun _ he j candidate available heq =>
    he j candidate available (congrArg Except.error (Except.error.inj heq))

theorem stocked_request (c : Call) : (Plan.request c).Ends Stocked := by
  intro answer
  cases answer with
  | ok a => exact nofun
  | error e => cases c <;> exact nofun

theorem stocked_owner (k : Kind) (identity : Identity) : (owner k identity).Ends Stocked := by
  have hselect (rows : List (StoredRow k)) : Stocked (selectRow identity rows) := by
    unfold selectRow
    split <;> exact nofun
  unfold owner
  split
  · exact nofun
  · refine Stocked.bind ?_ fun row => ?_
    · exact Stocked.bind (stocked_request _) fun rows => Plan.ends_ofExcept (hselect rows)
    · cases row <;> exact nofun

theorem stocked_insertRow (row : Assignment k) : (insertRow row).Ends Stocked := by
  intro answer
  cases answer with
  | ok done => exact nofun
  | error e =>
    intro j candidate available heq
    split at heq <;> cases heq

theorem stocked_write (identity : Identity) (row : Assignment k) :
    (write identity row).Ends Stocked := by
  refine Stocked.bind (stocked_request _) fun changed => ?_
  split
  · exact nofun
  · cases identity with
    | mac address => exact stocked_insertRow row
    | hostname token suffix => exact nofun

theorem stocked_give (identity : Identity) (found : k.Key × (String → k.Assigned)) :
    (give identity found).Ends Stocked :=
  Stocked.bind (stocked_owner k identity) fun mac =>
    Stocked.bind (stocked_write identity ⟨mac, found.1⟩) fun _ => nofun

end Service
end FleetBoot
