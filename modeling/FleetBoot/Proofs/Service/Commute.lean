import FleetBoot.Proofs.Plan.Confined
import FleetBoot.Proofs.Service.Pick
import Mathlib

/-! Which part of the database an operation keeps to, and that operations of parts that are apart
can trade places: those of one kind for different devices, and those of different kinds. -/
namespace FleetBoot

/-- The scope has all rows that the name may stand for. -/
def Identity.Owned (σ : Scope) : Identity → Prop
  | .mac address => σ.owns address = true
  | .hostname _ _ => ∀ address, σ.owns address = true

theorem Identity.Owned.of_finds {σ : Scope} {identity : Identity} (h : identity.Owned σ)
    {mac : String} (hfinds : identity.finds mac = true) : σ.owns mac = true := by
  cases identity with
  | mac address =>
    have heq : address = mac := by simpa [Identity.finds] using hfinds
    exact heq ▸ h
  | hostname token suffix => exact h mac

theorem Plan.confined_request {σ : Scope} {c : Call} (hc : c.Confined σ) :
    (Plan.request c).Confined σ := (Plan.only_request hc).confined

namespace Service
variable {σ : Scope} {identity : Identity}

theorem confined_deviceRow (h : identity.Owned σ) : (deviceRow σ.kind identity).Confined σ := by
  apply Plan.Confined.bind
  · exact Plan.confined_request ⟨rfl, fun _ => h.of_finds⟩
  · exact fun rows => (Plan.only_ofExcept _).confined

theorem confined_deviceEntry (s : Service) (h : identity.Owned σ) :
    ((s.cascade σ.kind).deviceEntry identity).Confined σ := by
  rw [Cascade.deviceEntry_eq]
  exact (confined_deviceRow h).bind fun row => (only_ofRow s row).confined_of_objects

theorem confined_defaultEntry (s : Service) (caller : Option Address) :
    ((s.cascade σ.kind).defaultEntry caller).Confined σ := by
  apply Plan.Confined.bind
  · cases caller with
    | none => exact .done none
    | some ip => exact Plan.confined_request (c := .networkDefault σ.kind ip) rfl
  · intro entry
    cases entry with
    | none => exact (only_global s σ.kind).confined_of_objects.bind fun _ => .done _
    | some entry => exact .done _

/-- A resolution reads and adds rows that its name may stand for, and no others. -/
theorem confined_resolve (s : Service) (h : identity.Owned σ) (caller : Option Address) :
    (Resolution.answer <$> (s.cascade σ.kind).resolve identity caller).Confined σ := by
  have hshown := (s.cascade σ.kind).map_resolve (fun answer _ => answer) identity caller
  rw [show Resolution.answer <$> (s.cascade σ.kind).resolve identity caller = _ from hshown]
  apply (confined_deviceEntry s h).bind
  rintro (_ | ⟨owner, entry⟩)
  · cases identity with
    | hostname token suffix => exact .fail _
    | mac mac =>
      apply (confined_defaultEntry s caller).bind
      intro chosen
      apply (only_deliver s mac (.mac mac) chosen.1).confined_of_objects.bind
      intro answer
      exact .writeBack ⟨rfl, h⟩ fun _ => .done _
  · exact (only_deliver s owner identity entry).confined_of_objects.bind fun _ => .done _

theorem confined_write (identity : Identity) (row : Assignment σ.kind) (h : σ.owns row.mac = true) :
    (write identity row).Confined σ := by
  apply Plan.Confined.bind
  · exact Plan.confined_request (c := .update row) ⟨rfl, h⟩
  · intro changed
    split
    · exact .done ()
    · cases identity with
      | hostname token suffix => exact .fail _
      | mac address =>
        refine .call ⟨rfl, h⟩ fun answer => ?_
        rcases answer with e | ⟨⟩
        · exact .fail _
        · exact .done ()

theorem confined_give {key : σ.kind.Key} (h : identity.Owned σ)
    (answer : String → σ.kind.Assigned) : (give identity (key, answer)).Confined σ := by
  cases identity with
  | mac address =>
    exact (confined_write (.mac address) ⟨address, key⟩ h).bind fun _ => .done _
  | hostname token suffix =>
    apply Plan.Confined.bind
    · apply (confined_deviceRow h).bind
      intro row
      cases row with
      | none => exact .fail _
      | some row => exact .done _
    · intro mac
      exact (confined_write (.hostname token suffix) ⟨mac, key⟩ (h mac)).bind fun _ => .done _

/-- To settle its key an assignment reads the catalog. -/
theorem confined_pick {k : Kind} {owns : String → Bool} {entries : Bool} (key : k.Key) :
    (pick key).Confined ⟨k, owns, entries⟩ := by
  cases k with
  | payload =>
    rw [pick]
    generalize require "payload_id" key = required
    apply (Plan.only_ofExcept required).confined.bind
    intro id
    refine Plan.Confined.bind (Plan.confined_request rfl) fun catalog => ?_
    apply (Plan.only_ofExcept _).confined.bind
    intro _
    refine Plan.Confined.bind (Plan.confined_request rfl) fun definition => ?_
    cases definition with
    | none => exact .fail _
    | some payload => exact .done _
  | image =>
    rw [pick]
    generalize require "image_tag" key.tag = requiredTag
    generalize require "image_type" key.type = requiredType
    apply (Plan.only_ofExcept requiredTag).confined.bind
    intro tag
    apply (Plan.only_ofExcept requiredType).confined.bind
    intro type
    refine Plan.Confined.bind (Plan.confined_request rfl) fun catalog => ?_
    exact (Plan.only_ofExcept _).confined.bind fun _ => .done _

theorem confined_createImage (s : Service) (image : Image) {owns : String → Bool} :
    (s.createImage image).Confined ⟨.image, owns, true⟩ := by
  unfold createImage
  generalize requireImage image = required
  apply (Plan.only_ofExcept required).confined.bind
  intro image
  apply (only_imageAssets s image).confined_of_objects.bind
  intro assets
  refine .call ⟨rfl, rfl⟩ fun answer => ?_
  rcases answer with e | ⟨⟩
  · exact .fail _
  · exact .done _

theorem confined_deleteImage (tag type : String) {owns : String → Bool} :
    (deleteImage tag type).Confined ⟨.image, owns, true⟩ := by
  unfold deleteImage
  generalize require "image_tag" tag = requiredTag
  generalize require "image_type" type = requiredType
  apply (Plan.only_ofExcept requiredTag).confined.bind
  intro tag
  apply (Plan.only_ofExcept requiredType).confined.bind
  intro type
  refine Plan.Confined.bind (Plan.confined_request ⟨rfl, rfl⟩) fun found => ?_
  cases found with
  | none => exact .fail _
  | some image => exact .done _

end Service

namespace Operation
variable {k : Kind} {mac : String} {op : Operation}

/-- The operation resolves or assigns an entry of this kind for the device of this address. -/
def OfDevice (k : Kind) (mac : String) : Operation → Prop
  | .resolve j raw _ => j = k ∧ Identity.normalize raw = .ok (.mac mac)
  | .assign j raw _ => j = k ∧ Identity.normalize raw = .ok (.mac mac)
  | _ => False

/-- The kind of entry that the operation resolves, assigns, adds or removes. -/
def kind? : Operation → Option Kind
  | .resolve k _ _ => some k
  | .assign k _ _ => some k
  | .createImage _ => some .image
  | .deleteImage _ _ => some .image
  | _ => none

/-- One kind and two devices, or two kinds. -/
def Independent (first second : Operation) : Prop :=
  (∃ k mac mac', mac ≠ mac' ∧ first.OfDevice k mac ∧ second.OfDevice k mac') ∨
    ∃ j k, j ≠ k ∧ first.kind? = some j ∧ second.kind? = some k

theorem confined_resolve {σ : Scope} (s : Service) {raw : String}
    (h : ∀ identity, Identity.normalize raw = .ok identity → identity.Owned σ)
    (caller : Option Address) : ((resolve σ.kind raw caller).plan s).Confined σ := by
  rw [plan]
  cases hraw : Identity.normalize raw with
  | error cause =>
    rw [Service.resolve_of_normalize_error hraw]
    exact .fail _
  | ok identity =>
    rw [Service.resolve_of_normalize hraw]
    exact Service.confined_resolve s (h identity hraw) caller

theorem confined_assign {σ : Scope} (s : Service) {raw : String}
    (h : ∀ identity, Identity.normalize raw = .ok identity → identity.Owned σ) (key : σ.kind.Key) :
    ((assign σ.kind raw key).plan s).Confined σ := by
  cases hraw : Identity.normalize raw with
  | error cause =>
    rw [Service.plan_assign_of_invalid s hraw]
    exact .fail _
  | ok identity =>
    rw [Service.plan_assign_eq s hraw]
    exact (Service.confined_pick key).bind fun found =>
      Service.confined_give (h identity hraw) found.2

theorem confined_of_device (s : Service) (h : op.OfDevice k mac) :
    (op.plan s).Confined ⟨k, (· == mac), false⟩ := by
  have howned {raw : String} (hraw : Identity.normalize raw = .ok (.mac mac)) (identity : Identity)
      (hidentity : Identity.normalize raw = .ok identity) :
      identity.Owned ⟨k, (· == mac), false⟩ := by
    cases hraw.symm.trans hidentity
    exact beq_self_eq_true mac
  cases op with
  | resolve j raw caller =>
    obtain ⟨rfl, hraw⟩ := h
    exact confined_resolve (σ := ⟨j, (· == mac), false⟩) s (howned hraw) caller
  | assign j raw key =>
    obtain ⟨rfl, hraw⟩ := h
    exact confined_assign (σ := ⟨j, (· == mac), false⟩) s (howned hraw) key
  | _ => exact h.elim

theorem confined_of_kind (s : Service) (h : op.kind? = some k) :
    (op.plan s).Confined ⟨k, fun _ => true, true⟩ := by
  have howned (raw : String) (identity : Identity) (_ : Identity.normalize raw = .ok identity) :
      identity.Owned ⟨k, fun _ => true, true⟩ := by
    cases identity with
    | mac address => rfl
    | hostname token suffix => exact fun _ => rfl
  cases op with
  | resolve j raw caller =>
    cases h
    exact confined_resolve (σ := ⟨k, fun _ => true, true⟩) s (howned raw) caller
  | assign j raw key =>
    cases h
    exact confined_assign (σ := ⟨k, fun _ => true, true⟩) s (howned raw) key
  | createImage image =>
    cases h
    exact Service.confined_createImage s image
  | deleteImage tag type =>
    cases h
    exact Service.confined_deleteImage tag type
  | _ => cases h

/-- Independent operations keep to scopes that are apart. -/
theorem Independent.scopes {first second : Operation} (h : first.Independent second) (s : Service) :
    ∃ σ τ : Scope, (first.plan s).Confined σ ∧ (second.plan s).Confined τ ∧ σ.Apart τ := by
  rcases h with ⟨k, mac, mac', hne, hfirst, hsecond⟩ | ⟨j, k, hne, hfirst, hsecond⟩
  · refine ⟨_, _, confined_of_device s hfirst, confined_of_device s hsecond,
      .inr ⟨rfl, rfl, fun other hother => ?_⟩⟩
    rw [eq_of_beq hother]
    simpa using hne
  · exact ⟨_, _, confined_of_kind s hfirst, confined_of_kind s hsecond, .inl hne⟩

end Operation

namespace Service

/-- Without a deadline, operations of one kind for different devices, and operations of different
kinds, come to the same results in either order, and leave databases with the same rows. -/
theorem operations_commute (s : Service) (conditions : Conditions) (w : World)
    (first second : Operation) (hw : w.landings = []) (h : first.Independent second) :
    let run (op : Operation) (w : World) := (op.plan s).run conditions .never w
    let inOrder := run second (run first w).2
    let swapped := run first (run second w).2
    (∃ x, (run first w).1 = some x ∧ swapped.1 = some x) ∧
      (∃ y, inOrder.1 = some y ∧ (run second w).1 = some y) ∧
      ∀ t t', inOrder.2.Comes t → swapped.2.Comes t' → t.SameRows t' := by
  intro run inOrder swapped
  obtain ⟨σ, τ, hfirst, hsecond, hapart⟩ := h.scopes s
  obtain ⟨hx, hy, hrows, hl, hl'⟩ := Plan.Confined.commute conditions hfirst hsecond hapart hw
  refine ⟨?_, ?_, ?_⟩
  · obtain ⟨x, hrun⟩ := Option.ne_none_iff_exists'.mp (Plan.run_never (first.plan s) conditions w)
    exact ⟨x, hrun, hx.symm.trans hrun⟩
  · obtain ⟨y, hrun⟩ := Option.ne_none_iff_exists'.mp (Plan.run_never (second.plan s) conditions w)
    exact ⟨y, hy.trans hrun, hrun⟩
  · intro t t' ht ht'
    rw [World.comes_of_landings hl ht, World.comes_of_landings hl' ht']
    exact hrows

/-- Two devices are given the default payload. Their rows stand in the order in which they were
added. -/
theorem operations_commute_devices :
    let s := Service.ofConfig {}
    let first := Operation.resolve .payload "AA:BB:CC:DD:EE:FF" none
    let second := Operation.resolve .payload "001122334455" none
    let run (op : Operation) (w : World) := (op.plan s).run {} .never w
    let inOrder := run second (run first {}).2
    let swapped := run first (run second {}).2
    first.Independent second ∧
      (run first {}).1 = some (.ok (⟨"aabbccddeeff", "default", "default"⟩ : AssignedPayload)) ∧
      (∃ x, (run first {}).1 = some x ∧ swapped.1 = some x) ∧
      (∃ y, inOrder.1 = some y ∧ (run second {}).1 = some y) ∧
      inOrder.2.store.SameRows swapped.2.store ∧
      inOrder.2.store.payloads.assignments =
        [⟨"aabbccddeeff", "default"⟩, ⟨"001122334455", "default"⟩] ∧
      swapped.2.store.payloads.assignments =
        [⟨"001122334455", "default"⟩, ⟨"aabbccddeeff", "default"⟩] := by
  intro s first second
  have hfirst : Identity.normalize "AA:BB:CC:DD:EE:FF" = .ok (.mac "aabbccddeeff") := by cbv
  have hsecond : Identity.normalize "001122334455" = .ok (.mac "001122334455") := by cbv
  have hindependent : first.Independent second :=
    .inl ⟨.payload, _, _, by decide, ⟨rfl, hfirst⟩, ⟨rfl, hsecond⟩⟩
  have hcommute := operations_commute s {} {} first second rfl hindependent
  dsimp only at hcommute ⊢
  obtain ⟨hx, hy, hrows⟩ := hcommute
  refine ⟨hindependent, ?_, hx, hy, ?_, ?_, ?_⟩
  · subst first s
    cbv
  · exact hrows _ _ (World.comes_store _) (World.comes_store _)
  · subst second first s
    cbv
  · subst second first s
    cbv

end Service
end FleetBoot
