import FleetBoot.Service.Assign
import FleetBoot.Proofs.Service.Choice

/-! What an assignment of either kind does: it looks for its candidate in the catalog, then for the
device, and writes. -/
namespace FleetBoot

/-- The failure of a request before which somebody else added the same. -/
def ServiceError.isConflict : ServiceError → Bool
  | .assignedMeanwhile _ _ | .imageExists _ => true
  | _ => false

/-- A key as it is looked for: without outer blanks. -/
def Kind.trimKey : {k : Kind} → k.Key → k.Key
  | .payload, id => Text.trim id
  | .image, key => ⟨Text.trim key.tag, Text.trim key.type⟩

/-- A result of which this holds, or a failure that is no conflict. -/
def Calm {α : Type} (good : α → Prop) : Except ServiceError α → Prop
  | .ok a => good a
  | .error e => e.isConflict = false

theorem Calm.mono {α : Type} {good good' : α → Prop} {x : Except ServiceError α} (hx : Calm good x)
    (h : ∀ a, good a → good' a) : Calm good' x := by
  cases x with
  | ok a => exact h a hx
  | error e => exact hx

theorem Calm.bind {α β : Type} {good : α → Prop} {good' : β → Prop} {x : Except ServiceError α}
    {f : α → Except ServiceError β} (hx : Calm good x) (hf : ∀ a, good a → Calm good' (f a)) :
    Calm good' (x >>= f) := by
  cases x with
  | ok a => exact hf a hx
  | error e => exact hx

/-- One after the other, plans fail without a conflict if each does. -/
theorem Plan.Ends.bind_calm {α β : Type} {good : α → Prop} {good' : β → Prop}
    {p : Plan ServiceError α} {f : α → Plan ServiceError β} (hp : p.Ends (Calm good))
    (hf : ∀ a, good a → (f a).Ends (Calm good')) : (p.bind f).Ends (Calm good') :=
  hp.bind hf fun _ he => he

theorem Plan.ends_request (c : Call) : (Plan.request c).Ends (Calm fun _ => True) := by
  intro answer
  cases answer with
  | ok a => exact trivial
  | error e => cases c <;> rfl

theorem selectRow_calm {k : Kind} (identity : Identity) (rows : List (StoredRow k)) :
    Calm (fun row => ∀ r ∈ row, r ∈ rows ∧ identity.selects r.row.mac)
      (selectRow identity rows) := by
  have hmem (r : StoredRow k) (h : r ∈ rows.filter fun r => identity.selects r.row.mac) :
      r ∈ rows ∧ identity.selects r.row.mac := List.mem_filter.mp h
  unfold selectRow
  split
  · exact nofun
  · next r hr =>
    intro r' hr'
    cases hr'
    exact hmem r (hr ▸ List.mem_cons_self)
  · exact rfl

namespace Service
variable {k : Kind}

/-- Gives a device an entry of either kind. -/
def assign (raw : String) : {k : Kind} → k.Key → Plan ServiceError Unit
  | .payload, id => (fun _ => ()) <$> assignPayload raw id
  | .image, key => (fun _ => ()) <$> assignImage raw key.tag key.type

/-- The key under which the catalog has what is asked for. -/
def candidate : {k : Kind} → k.Key → Plan ServiceError k.Key
  | .payload, id => do
      let id ← .ofExcept (require "payload_id" id)
      let catalog ← available .payload
      .ofExcept (requireAvailable id catalog)
      match ← Plan.request (.definition id) with
      | none => .fail (.unavailable .payload id catalog)
      | some _ => return id
  | .image, key => do
      let tag ← .ofExcept (require "image_tag" key.tag)
      let type ← .ofExcept (require "image_type" key.type)
      let key : ImageKey := ⟨tag, type⟩
      let catalog ← available .image
      .ofExcept (requireAvailable key catalog)
      return key

theorem assign_eq {raw : String} {identity : Identity} (h : Identity.normalize raw = .ok identity)
    (key : k.Key) :
    assign raw key = (candidate key).bind fun key =>
      (owner k identity).bind fun mac => write identity ⟨mac, key⟩ := by
  have hunit (p : Plan ServiceError Unit) : p.bind (fun _ => .done ()) = p := Plan.bind_pure p
  cases k with
  | payload =>
    simp only [assign, candidate, assignPayload, identify, h, Plan.bind_eq, Plan.pure_eq,
      Plan.map_eq, Plan.bind_assoc, Plan.bind_done]
    congr 1
    funext id
    congr 1
    funext catalog
    congr 1
    funext checked
    congr 1
    funext definition
    cases definition with
    | none => rfl
    | some payload => simp only [Plan.bind_assoc, Plan.bind_done, hunit]
  | image =>
    simp only [assign, candidate, assignImage, identify, h, Plan.bind_eq, Plan.pure_eq,
      Plan.map_eq, Plan.bind_assoc, Plan.bind_done, hunit]

theorem require_calm (field value : String) :
    Calm (fun text => text = Text.trim value) (require field value) := by
  unfold require
  dsimp only
  split <;> rfl

/-- What requiring a field comes to. Proofs go on with `required`, so that the text is never looked
at. -/
theorem exists_require (field value : String) :
    ∃ required, require field value = required ∧ Calm (fun text => text = Text.trim value) required :=
  ⟨_, rfl, require_calm field value⟩

theorem requireAvailable_calm (key : k.Key) (catalog : List k.Key) :
    Calm (fun _ => True) (requireAvailable key catalog) := by
  unfold requireAvailable
  split
  · trivial
  · rfl

theorem only_candidate (key : k.Key) : (candidate key).Only Call.Reads := by
  cases k with
  | payload =>
    rw [candidate]
    generalize require "payload_id" key = required
    refine (Plan.only_ofExcept required).bind fun id => ?_
    refine (Plan.only_request (c := .available .payload) trivial).bind fun catalog => ?_
    refine (Plan.only_ofExcept _).bind fun _ => ?_
    refine (Plan.only_request (c := .definition id) trivial).bind fun definition => ?_
    cases definition <;> trivial
  | image =>
    rw [candidate]
    generalize require "image_tag" key.tag = tag
    generalize require "image_type" key.type = type
    refine (Plan.only_ofExcept tag).bind fun tag => (Plan.only_ofExcept type).bind fun type => ?_
    refine (Plan.only_request (c := .available .image) trivial).bind fun catalog => ?_
    exact (Plan.only_ofExcept _).bind fun _ => trivial

theorem ends_candidate (key : k.Key) :
    (candidate key).Ends (Calm fun found => found = Kind.trimKey key) := by
  cases k with
  | payload =>
    have hid := require_calm "payload_id" key
    rw [candidate]
    generalize require "payload_id" key = required at hid ⊢
    refine (Plan.ends_ofExcept hid).bind_calm fun id hid => ?_
    refine (Plan.ends_request (.available .payload)).bind_calm fun catalog _ => ?_
    refine (Plan.ends_ofExcept (requireAvailable_calm _ catalog)).bind_calm fun _ _ => ?_
    refine (Plan.ends_request (.definition id)).bind_calm fun definition _ => ?_
    cases definition with
    | none => exact rfl
    | some payload => exact hid
  | image =>
    have htag := require_calm "image_tag" key.tag
    have htype := require_calm "image_type" key.type
    rw [candidate]
    generalize require "image_tag" key.tag = tag at htag ⊢
    generalize require "image_type" key.type = type at htype ⊢
    refine (Plan.ends_ofExcept htag).bind_calm fun tag htag => ?_
    refine (Plan.ends_ofExcept htype).bind_calm fun type htype => ?_
    refine (Plan.ends_request (.available .image)).bind_calm fun catalog _ => ?_
    refine (Plan.ends_ofExcept (requireAvailable_calm _ catalog)).bind_calm fun _ _ => ?_
    rw [htag, htype]
    rfl

end Service
end FleetBoot
