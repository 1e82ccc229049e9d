import FleetBoot.Service.Manage
import FleetBoot.Proofs.Plan.Rows
import FleetBoot.Proofs.Service.Candidate

/-! All that callers can ask of the service, and the one call by which each of it changes the
database. -/
namespace FleetBoot

namespace Kind

/-- What the caller is told of an assignment. -/
abbrev Assigned : Kind → Type
  | .payload => AssignedPayload
  | .image => Assignment .image

def assignedMac : {k : Kind} → k.Assigned → String
  | .payload, a => a.mac
  | .image, a => a.mac

end Kind

inductive Operation where
  | resolve (k : Kind) (raw : String) (caller : Option Address)
  | assign (k : Kind) (raw : String) (key : k.Key)
  | available (k : Kind)
  | networkDefaults (ip : Address)
  | parameters (payloadId : String)
  | createImage (image : Image)
  | deleteImage (tag type : String)
  | locateImage (image : String)

namespace Operation

@[reducible] def Result : Operation → Type
  | .resolve k _ _ => k.Answer
  | .assign k _ _ => k.Assigned
  | .available k => List k.Key
  | .networkDefaults _ => NetworkDefaults
  | .parameters _ => Json
  | .createImage _ => SignedImage
  | .deleteImage _ _ => Image
  | .locateImage _ => ImageAssets

def plan (s : Service) : (op : Operation) → Plan ServiceError op.Result
  | .resolve k raw caller => s.resolve raw caller k
  | .assign .payload raw id => Service.assignPayload raw id
  | .assign .image raw key => Service.assignImage raw key.tag key.type
  | .available k => Service.available k
  | .networkDefaults ip => Service.networkDefaults ip
  | .parameters id => Service.parameters id
  | .createImage image => s.createImage image
  | .deleteImage tag type => Service.deleteImage tag type
  | .locateImage image => s.locateImage image

/-- The row that an assignment with this result has given a device. -/
def given : (op : Operation) → op.Result → Option ((k : Kind) × Assignment k)
  | .assign k _ key, a => some ⟨k, Kind.assignedMac a, Kind.trimKey key⟩
  | _, _ => none

/-- The call that may have changed the database if the operation has this result. A resolution by a
whole address may have added a row, and an assignment changes a row that the name selects or adds
that of the address. -/
def Writes : (op : Operation) → op.Result → Call → Prop
  | .resolve k raw _, answer, c => ∃ mac, Identity.normalize raw = .ok (.mac mac) ∧
      c = .insert (⟨mac, Kind.answerKey answer⟩ : Assignment k)
  | .assign k raw key, a, c => ∃ identity, Identity.normalize raw = .ok identity ∧
      identity.selects (Kind.assignedMac a) ∧
      (c = .update (⟨Kind.assignedMac a, Kind.trimKey key⟩ : Assignment k) ∨
        identity.mac? = some (Kind.assignedMac a) ∧
          c = .insert (⟨Kind.assignedMac a, Kind.trimKey key⟩ : Assignment k))
  | .createImage image, signed, c => signed.image.key = Kind.trimKey (k := .image) image.key ∧
      c = .create signed.image
  | .deleteImage tag type, _, c => c = .delete (Kind.trimKey (k := .image) ⟨tag, type⟩)
  | _, _, _ => False

end Operation

namespace Cascade
variable {k : Kind} {α β : Type} (c : Cascade k α)

/-- What is left of a resolution when it is known whether the device has an entry of its own, as far
as the answer and the tier show. -/
def showing (f : α → Tier → β) (identity : Identity) (caller : Option Address) :
    Option (String × k.Entry) → Option String → Plan ServiceError β
  | some (owner, entry), _ =>
      (c.deliver owner identity entry).bind fun answer => .done (f answer .device)
  | none, some mac => (c.defaultEntry caller).bind fun chosen =>
      (c.deliver mac identity chosen.1).bind fun answer =>
        .writeBack (⟨mac, Kind.keyOf chosen.1⟩ : Assignment k) fun _ => .done (f answer chosen.2)
  | none, none => .fail (.notFound k identity)

theorem map_resolve (f : α → Tier → β) (identity : Identity) (caller : Option Address) :
    (fun r => f r.answer r.tier) <$> c.resolve identity caller =
      (c.deviceEntry identity).bind fun own => c.showing f identity caller own identity.mac? := by
  rw [resolve, Plan.map_eq, Plan.bind_eq, Plan.bind_assoc]
  congr 1
  funext own
  rcases own with _ | ⟨owner, entry⟩
  · cases identity with
    | hostname token suffix => rfl
    | mac mac =>
      change ((c.defaultEntry caller).bind fun chosen => (c.deliver mac (.mac mac) chosen.1).bind _).bind _ = _
      simp only [Plan.bind_assoc]
      rfl
  · change ((c.deliver owner identity entry).bind _).bind _ = _
    rw [Plan.bind_assoc]
    rfl

end Cascade

namespace Service
variable {k : Kind}

/-- The name of a whole address selects that address. -/
theorem mac?_eq_some_iff {identity : Identity} {mac : String} :
    identity.mac? = some mac ↔ identity.mac?.isSome ∧ identity.selects mac = true := by
  cases identity with
  | mac address => simp [Identity.mac?, Identity.selects]
  | hostname token suffix => simp [Identity.mac?]

theorem resolve_of_normalize_error {raw : String} {cause : IdentityError}
    (h : Identity.normalize raw = .error cause) (s : Service) (caller : Option Address) (k : Kind) :
    s.resolve raw caller k = .fail (.invalidIdentity cause) := by
  cases k <;> simp [resolve, resolvePayload, resolveImage, identify, h]

theorem only_identify (raw : String) {allowed : Call → Prop} : (identify raw).Only allowed := by
  unfold identify
  split <;> trivial

theorem ends_identify (raw : String) :
    (identify raw).Ends (Calm fun identity => Identity.normalize raw = .ok identity) := by
  unfold identify
  split
  · next identity h => exact h
  · exact rfl

theorem only_owner (k : Kind) (identity : Identity) : (owner k identity).Only Call.Reads := by
  unfold owner
  split
  · trivial
  · refine (only_deviceRow k identity).bind fun row => ?_
    cases row <;> trivial

theorem ends_owner (k : Kind) (identity : Identity) :
    (owner k identity).Ends (Calm fun mac => identity.selects mac = true) := by
  unfold owner
  split
  · next mac h => exact (mac?_eq_some_iff.mp h).2
  · have hrow : (deviceRow k identity).Ends
        (Calm fun row => ∀ r ∈ row, identity.selects r.row.mac = true) := by
      refine (Plan.ends_request _).bind_calm fun rows _ => Plan.ends_ofExcept ?_
      exact (selectRow_calm identity rows).mono fun row hrow r hr => (hrow r hr).2
    refine hrow.bind_calm fun row hrow => ?_
    cases row with
    | none => exact rfl
    | some r => exact hrow r rfl

/-- A failure that a call is answered with is that of the plan. -/
theorem changesLast_request {α : Type} {good : Call → Except ServiceError α → Prop} {c : Call}
    {f : c.Reply → Plan ServiceError α} (hc : ∀ e, ¬ c.Changed (.error e))
    (last : ∀ a, c.Changed (.ok a) → ∃ x, f a = .ofExcept x ∧ good c x)
    (rest : ∀ a, (f a).ChangesLast good) : ((Plan.request c).bind f).ChangesLast good := by
  refine .call c (fun answer hchanged => ?_) fun answer => ?_
  · cases answer with
    | error e => exact absurd hchanged (hc e)
    | ok a => exact last a hchanged
  · cases answer with
    | error e => exact .fail _
    | ok a => exact rest a

/-- A write changes the row of the device, and adds one only for a whole address. -/
theorem changesLast_write (identity : Identity) (row : Assignment k) :
    (write identity row).ChangesLast fun c x => x = .ok () ∧
      (c = .update row ∨ identity.mac?.isSome ∧ c = .insert row) := by
  refine changesLast_request (c := .update row) nofun ?_ fun changed => ?_
  · rintro changed ⟨n, hn, ⟨⟩⟩
    exact ⟨.ok (), if_pos hn, rfl, .inl rfl⟩
  · split
    · exact .done _
    · cases identity with
      | hostname token suffix => exact .fail _
      | mac address =>
        refine .call (.insert row) (fun answer hchanged => ?_) fun answer => ?_
        · cases hchanged
          exact ⟨.ok (), rfl, rfl, .inr ⟨rfl, rfl⟩⟩
        · rcases answer with e | ⟨⟩
          · exact .fail _
          · exact .done _

theorem ends_deliver (s : Service) (mac : String) (identity : Identity) (e : k.Entry) :
    ((s.cascade k).deliver mac identity e).Ends
      fun x => ∀ answer, x = .ok answer → Kind.answerKey answer = Kind.keyOf e := by
  cases k with
  | payload =>
    rintro answer ⟨⟩
    rfl
  | image =>
    refine (Plan.ends_trivial _).bind ?_ ?_
    · rintro assets - answer ⟨⟩
      rfl
    · exact fun e _ answer h => nomatch h

/-- A resolution changes nothing but that it adds the row of a whole address, and its answer and
tier do not depend on that. -/
theorem changesLast_resolve {α : Type} (s : Service) (identity : Identity) (caller : Option Address)
    (f : k.Answer → Tier → α) :
    ((fun r => f r.answer r.tier) <$> (s.cascade k).resolve identity caller).ChangesLast
      fun c x => ∃ answer tier mac, x = .ok (f answer tier) ∧ identity = .mac mac ∧
        c = .insert (⟨mac, Kind.answerKey answer⟩ : Assignment k) := by
  rw [Cascade.map_resolve]
  refine (only_deviceEntry s identity).changesLast_bind (Plan.ends_trivial _) fun own _ => ?_
  rcases own with _ | ⟨owner, entry⟩
  · cases identity with
    | hostname token suffix => exact .fail _
    | mac mac =>
      refine ((only_defaultEntry s caller).mono fun _ => Call.Rowless.reads).changesLast_bind
        (Plan.ends_trivial _) fun chosen _ => ?_
      refine ((only_deliver s mac (.mac mac) chosen.1).mono fun _ =>
        Call.OnObjects.reads).changesLast_bind (ends_deliver s mac (.mac mac) chosen.1)
        fun answer hkey => ?_
      exact .writeBack _ (fun _ => rfl) ⟨answer, chosen.2, mac, rfl, rfl, by rw [hkey answer rfl]⟩
  · have hdeliver := (only_deliver s owner identity entry).mono fun _ => Call.OnObjects.reads
    exact hdeliver.changesLast_bind (Plan.ends_trivial _) fun answer _ => .done _

/-- What an assignment does when its key is settled. -/
theorem changesLast_give {α : Type} (identity : Identity) (key : k.Key) (answer : String → α) :
    ((owner k identity).bind fun mac =>
      (write identity (⟨mac, key⟩ : Assignment k)).bind fun _ => .done (answer mac)).ChangesLast
    fun c x => ∃ mac, x = .ok (answer mac) ∧ identity.selects mac = true ∧
      (c = .update (⟨mac, key⟩ : Assignment k) ∨
        identity.mac? = some mac ∧ c = .insert (⟨mac, key⟩ : Assignment k)) := by
  refine (only_owner k identity).changesLast_bind (ends_owner k identity) fun mac hmac => ?_
  refine Plan.ChangesLast.map (fun _ => answer mac) ((changesLast_write identity _).mono ?_)
  rintro c x ⟨rfl, hc⟩
  refine ⟨mac, rfl, hmac, hc.imp_right ?_⟩
  rintro ⟨hwhole, hc⟩
  exact ⟨mac?_eq_some_iff.mpr ⟨hwhole, hmac⟩, hc⟩

theorem changesLast_assignPayload (raw id : String) :
    (assignPayload raw id).ChangesLast fun c x => ∃ a, x = .ok a ∧
      (Operation.assign .payload raw id).Writes a c := by
  obtain ⟨required, hrequire, hid⟩ := exists_require "payload_id" id
  unfold assignPayload
  rw [hrequire]
  refine (only_identify raw).changesLast_bind (ends_identify raw) fun identity hidentity => ?_
  refine (Plan.only_ofExcept required).changesLast_bind (Plan.ends_ofExcept hid) fun id' hid => ?_
  refine (Plan.only_request trivial).changesLast_bind (Plan.ends_request _) fun catalog _ => ?_
  refine (Plan.only_ofExcept _).changesLast_bind (Plan.ends_ofExcept
    (requireAvailable_calm _ catalog)) fun _ _ => ?_
  refine (Plan.only_request trivial).changesLast_bind (Plan.ends_request _) fun definition _ => ?_
  cases definition with
  | none => exact .fail _
  | some payload =>
    refine (changesLast_give (k := .payload) identity id' fun mac => AssignedPayload.new mac payload).mono ?_
    rintro c x ⟨mac, rfl, hmac, hc⟩
    cases hid
    exact ⟨_, rfl, identity, hidentity, hmac, hc⟩

theorem changesLast_assignImage (raw : String) (key : ImageKey) :
    (assignImage raw key.tag key.type).ChangesLast fun c x => ∃ a, x = .ok a ∧
      (Operation.assign .image raw key).Writes a c := by
  obtain ⟨tag, hrequireTag, htag⟩ := exists_require "image_tag" key.tag
  obtain ⟨type, hrequireType, htype⟩ := exists_require "image_type" key.type
  unfold assignImage
  rw [hrequireTag, hrequireType]
  refine (only_identify raw).changesLast_bind (ends_identify raw) fun identity hidentity => ?_
  refine (Plan.only_ofExcept tag).changesLast_bind (Plan.ends_ofExcept htag) fun tag htag => ?_
  refine (Plan.only_ofExcept type).changesLast_bind (Plan.ends_ofExcept htype) fun type htype => ?_
  refine (Plan.only_request trivial).changesLast_bind (Plan.ends_request _) fun catalog _ => ?_
  refine (Plan.only_ofExcept _).changesLast_bind (Plan.ends_ofExcept
    (requireAvailable_calm _ catalog)) fun _ _ => ?_
  refine (changesLast_give (k := .image) identity ⟨tag, type⟩
    fun mac => (⟨mac, ⟨tag, type⟩⟩ : Assignment .image)).mono ?_
  rintro c x ⟨mac, rfl, hmac, hc⟩
  cases htag
  cases htype
  exact ⟨_, rfl, identity, hidentity, hmac, hc⟩

theorem exists_requireImage (image : Image) :
    ∃ required, requireImage image = required ∧
      Calm (fun i => i.key = Kind.trimKey (k := .image) image.key) required := by
  obtain ⟨name, hrequireName, hname⟩ := exists_require "image_name" image.name
  obtain ⟨bucket, hrequireBucket, hbucket⟩ := exists_require "image_bucket" image.bucket
  obtain ⟨tag, hrequireTag, htag⟩ := exists_require "image_tag" image.tag
  obtain ⟨type, hrequireType, htype⟩ := exists_require "image_type" image.type
  obtain ⟨cmdline, hrequireCmdline, hcmdline⟩ := exists_require "image_cmdline" image.cmdline
  rw [requireImage, hrequireName, hrequireBucket, hrequireTag, hrequireType, hrequireCmdline]
  refine ⟨_, rfl, hname.bind fun name _ => hbucket.bind fun bucket _ => htag.bind fun tag htag =>
    htype.bind fun type htype => hcmdline.bind fun cmdline _ => ?_⟩
  exact congr (congrArg ImageKey.mk htag) htype

theorem changesLast_createImage (s : Service) (image : Image) :
    (s.createImage image).ChangesLast fun c x => ∃ a, x = .ok a ∧
      (Operation.createImage image).Writes a c := by
  obtain ⟨required, hrequire, hkey⟩ := exists_requireImage image
  unfold createImage
  rw [hrequire]
  refine (Plan.only_ofExcept required).changesLast_bind (Plan.ends_ofExcept hkey) fun i hi => ?_
  refine ((only_imageAssets s i).mono fun _ => Call.OnObjects.reads).changesLast_bind
    (Plan.ends_trivial _) fun assets _ => ?_
  refine .call (.create i) (fun answer hchanged => ?_) fun answer => ?_
  · cases hchanged
    exact ⟨.ok ⟨i, assets⟩, rfl, _, rfl, hi, rfl⟩
  · rcases answer with e | ⟨⟩
    · exact .fail _
    · exact .done _

theorem changesLast_deleteImage (tag type : String) :
    (deleteImage tag type).ChangesLast fun c x => ∃ a, x = .ok a ∧
      (Operation.deleteImage tag type).Writes a c := by
  obtain ⟨tag, hrequireTag, htag⟩ := exists_require "image_tag" tag
  obtain ⟨type, hrequireType, htype⟩ := exists_require "image_type" type
  unfold deleteImage
  rw [hrequireTag, hrequireType]
  refine (Plan.only_ofExcept tag).changesLast_bind (Plan.ends_ofExcept htag) fun tag htag => ?_
  refine (Plan.only_ofExcept type).changesLast_bind (Plan.ends_ofExcept htype) fun type htype => ?_
  refine changesLast_request (c := .delete ⟨tag, type⟩) nofun ?_ fun found => ?_
  · rintro found ⟨image, ⟨⟩⟩
    refine ⟨.ok image, rfl, image, rfl, ?_⟩
    rw [htag, htype]
    rfl
  · cases found with
    | none => exact .fail _
    | some image => exact .done _

theorem only_networkDefaults (ip : Address) : (networkDefaults ip).Only Call.Reads := by
  refine (Plan.only_request (c := .networkDefault .payload ip) trivial).bind fun payload => ?_
  refine (Plan.only_request (c := .networkDefault .image ip) trivial).bind fun image => ?_
  trivial

theorem changesLast_parameters {good : Call → Except ServiceError Json → Prop}
    (payloadId : String) : (parameters payloadId).ChangesLast good := by
  unfold parameters
  generalize require "payload_id" payloadId = required
  refine Plan.Only.changesLast ((Plan.only_ofExcept required).bind fun id => ?_)
  refine (Plan.only_request (c := .parameters id) trivial).bind fun members => ?_
  cases members <;> trivial

theorem only_locateImage (s : Service) (image : String) : (s.locateImage image).Only Call.Reads :=
  ((only_locate s _ _ _ _).mapError _).mono fun _ => Call.OnObjects.reads

end Service

/-- Every operation changes the database by its last call at most, and then it succeeds. -/
theorem Operation.changesLast_plan (s : Service) (op : Operation) :
    (op.plan s).ChangesLast fun c x => ∃ a, x = .ok a ∧ op.Writes a c := by
  cases op with
  | resolve k raw caller =>
    rw [plan]
    cases hraw : Identity.normalize raw with
    | error cause =>
      rw [Service.resolve_of_normalize_error hraw]
      exact .fail _
    | ok identity =>
      rw [Service.resolve_of_normalize hraw]
      refine (Service.changesLast_resolve s identity caller fun answer _ => answer).mono ?_
      rintro c x ⟨answer, -, mac, rfl, rfl, hc⟩
      exact ⟨answer, rfl, mac, hraw, hc⟩
  | assign k raw key =>
    cases k with
    | payload => exact Service.changesLast_assignPayload raw key
    | image => exact Service.changesLast_assignImage raw key
  | available k => exact (Plan.only_request (c := .available k) trivial).changesLast
  | networkDefaults ip => exact (Service.only_networkDefaults ip).changesLast
  | parameters id => exact Service.changesLast_parameters id
  | createImage image => exact Service.changesLast_createImage s image
  | deleteImage tag type => exact Service.changesLast_deleteImage tag type
  | locateImage image => exact (Service.only_locateImage s image).changesLast

end FleetBoot
