import FleetBoot.Proofs.Plan.Grounded
import FleetBoot.Proofs.Service.Exact
import FleetBoot.Proofs.Service.Frame
import FleetBoot.Proofs.Service.Pick

/-! No operation of the service writes a row that points at nothing: addresses come from names, and
keys from the catalog, from the defaults of networks or from the settings. -/
namespace FleetBoot
variable {free : Keys} {k : Kind} {t : Store}

theorem Plan.grounded_request {c : Call} (hc : c.Grounded free t) :
    (Plan.request c).Grounded free (fun a u => c.Tells free u (.ok a)) t := by
  refine .call hc fun answer u _ htells => ?_
  cases answer with
  | error e => exact .fail _ u
  | ok a => exact .done fun v huv => htells.mono huv

namespace Service
variable {s : Service} {identity : Identity}

theorem ends_global (s : Service) (k : Kind) :
    (s.cascade k).global.Ends fun x => ∀ e, x = .ok e → Kind.keyOf e = (s.cascade k).globalKey := by
  cases k with
  | payload =>
    rintro e ⟨⟩
    rfl
  | image =>
    intro answer
    cases answer with
    | error cause =>
      rintro e ⟨⟩
      rfl
    | ok bytes =>
      rintro e ⟨⟩
      rfl

/-- The default that a device gets has a key that is backed. -/
theorem grounded_defaultEntry (hglobal : free k (s.cascade k).globalKey)
    (caller : Option Address) (t : Store) :
    ((s.cascade k).defaultEntry caller).Grounded free
      (fun chosen u => u.Backs free k (Kind.keyOf chosen.1)) t := by
  have hnetwork : (Cascade.networkEntry k caller).Grounded free
      (fun found u => ∀ e, found = some e → u.Backs free k (Kind.keyOf e)) t := by
    cases caller with
    | none => exact .done fun _ _ => nofun
    | some ip =>
      refine (Plan.grounded_request (c := .networkDefault k ip) trivial).weaken ?_
      exact fun found u htells e he => htells e (congrArg Except.ok he)
  refine hnetwork.bind fun found u _ hfound => ?_
  cases found with
  | some e => exact .done fun v huv => huv k _ (hfound e rfl)
  | none =>
    have hreads := (only_global s k).mono fun _ => Call.OnObjects.reads
    refine ((ends_global s k).grounded hreads u).bind fun e v _ he => ?_
    exact .done fun _ _ => .inl (he ▸ hglobal)

/-- A resolution writes a key that it was told of, for a device with a canonical address. -/
theorem grounded_resolve {α : Type} (hglobal : free k (s.cascade k).globalKey)
    (hmac : ∀ mac, identity.mac? = some mac → CanonicalMac mac) (caller : Option Address)
    (f : k.Answer → Tier → α) (t : Store) :
    ((fun r => f r.answer r.tier) <$> (s.cascade k).resolve identity caller).Grounded free
      (fun _ _ => True) t := by
  have hdeliver (mac : String) (e : k.Entry) (u : Store) :
      ((s.cascade k).deliver mac identity e).Grounded free (fun _ _ => True) u :=
    ((only_deliver s mac identity e).mono fun _ => Call.OnObjects.reads).grounded u
  rw [Cascade.map_resolve]
  refine ((only_deviceEntry s identity).grounded t).bind fun own u _ _ => ?_
  rcases own with _ | ⟨owner, entry⟩
  · cases identity with
    | hostname token suffix => exact .fail _ u
    | mac mac =>
      refine (grounded_defaultEntry hglobal caller u).bind fun chosen v _ hchosen => ?_
      refine (hdeliver mac chosen.1 v).bind fun answer w hvw _ => ?_
      exact .writeBack ⟨hmac mac rfl, hvw k _ hchosen⟩ fun _ _ _ => .done fun _ _ => trivial
  · exact (hdeliver owner entry u).map _

theorem mem_of_requireAvailable {candidate : k.Key} {catalog : List k.Key}
    (h : requireAvailable candidate catalog = .ok ()) : candidate ∈ catalog := by
  unfold requireAvailable at h
  split at h
  · assumption
  · cases h

/-- An assignment goes on with a key of the catalog. -/
theorem grounded_pick (key : k.Key) (t : Store) :
    (pick key).Grounded free (fun found u => u.Backs free k found.1) t := by
  have hchecked {key : k.Key} {catalog : List k.Key} (u : Store) :
      (Plan.ofExcept (requireAvailable key catalog)).Grounded free
        (fun _ _ => key ∈ catalog) u :=
    (Plan.ends_ofExcept fun _ h => mem_of_requireAvailable h).grounded (Plan.only_ofExcept _) u
  cases k with
  | payload =>
    rw [pick]
    generalize require "payload_id" key = required
    refine ((Plan.only_ofExcept required).grounded t).bind fun id u _ _ => ?_
    refine (Plan.grounded_request (c := .available .payload) trivial).bind
      fun catalog v _ htells => ?_
    refine (hchecked v).bind fun _ w hvw hmem => ?_
    refine (Plan.grounded_request (c := .definition id) trivial).bind fun definition x hwx _ => ?_
    cases definition with
    | none => exact .fail _ x
    | some payload =>
      exact .done fun y hxy => (hvw.trans (hwx.trans hxy)) .payload id (htells catalog rfl id hmem)
  | image =>
    rw [pick]
    generalize require "image_tag" key.tag = tag
    generalize require "image_type" key.type = type
    refine ((Plan.only_ofExcept tag).grounded t).bind fun tag u _ _ => ?_
    refine ((Plan.only_ofExcept type).grounded u).bind fun type v _ _ => ?_
    refine (Plan.grounded_request (c := .available .image) trivial).bind
      fun catalog w _ htells => ?_
    refine (hchecked w).bind fun _ x hwx hmem => ?_
    exact .done fun y hxy => (hwx.trans hxy) .image _ (htells catalog rfl _ hmem)

/-- The row of a device that has one may be updated whatever its address, but only a whole address
is given a row. -/
theorem grounded_write {row : Assignment k} (hmac : identity.mac?.isSome → CanonicalMac row.mac)
    (hkey : t.Backs free k row.key) :
    (write identity row).Grounded free (fun _ _ => True) t := by
  refine (Plan.grounded_request (c := .update row) hkey).bind fun changed u htu _ => ?_
  split
  · exact .done fun _ _ => trivial
  · cases identity with
    | hostname token suffix => exact .fail _ u
    | mac address =>
      have hrow : u.Grounds free row := ⟨hmac rfl, htu k _ hkey⟩
      refine .call (c := .insert row) hrow fun answer v _ _ => ?_
      rcases answer with e | ⟨⟩
      · exact .fail _ v
      · exact .done fun _ _ => trivial

theorem grounded_give (hmac : ∀ mac, identity.mac? = some mac → CanonicalMac mac)
    {found : k.Key × (String → k.Assigned)} (hkey : t.Backs free k found.1) :
    (give identity found).Grounded free (fun _ _ => True) t := by
  have hends : (owner k identity).Ends fun x => ∀ mac, x = .ok mac →
      identity.selects mac = true := by
    refine (ends_owner k identity).mono ?_
    rintro x hx mac rfl
    exact hx
  refine (hends.grounded (only_owner k identity) t).bind fun mac u htu hselects => ?_
  have hwrite : (write identity (⟨mac, found.1⟩ : Assignment k)).Grounded free
      (fun _ _ => True) u := by
    apply grounded_write _ (htu k _ hkey)
    intro hwhole
    exact hmac mac (mac?_eq_some_iff.mpr ⟨hwhole, hselects⟩)
  exact hwrite.map _

theorem canonical_of_mac? {raw mac : String} (hraw : Identity.normalize raw = .ok identity)
    (h : identity.mac? = some mac) : CanonicalMac mac := by
  cases identity with
  | mac address =>
    cases h
    exact Identity.canonical_of_normalize hraw
  | hostname token suffix => cases h

theorem grounded_parameters (payloadId : String) (t : Store) :
    (parameters payloadId).Grounded free (fun _ _ => True) t := by
  unfold parameters
  generalize require "payload_id" payloadId = required
  refine ((Plan.only_ofExcept required).grounded t).bind fun id u _ _ => ?_
  refine (Plan.grounded_request (c := .parameters id) trivial).bind fun members v _ _ => ?_
  cases members with
  | none => exact .fail _ v
  | some members => exact .done fun _ _ => trivial

theorem grounded_createImage (s : Service) (image : Image) (t : Store) :
    (s.createImage image).Grounded free (fun _ _ => True) t := by
  unfold createImage
  generalize requireImage image = required
  refine ((Plan.only_ofExcept required).grounded t).bind fun i u _ _ => ?_
  have hassets := (only_imageAssets s i).mono fun _ => Call.OnObjects.reads
  refine (hassets.grounded u).bind fun assets v _ _ => ?_
  refine .call (c := .create i) trivial fun answer w _ _ => ?_
  rcases answer with e | ⟨⟩
  · exact .fail _ w
  · exact .done fun _ _ => trivial

theorem grounded_deleteImage (hfree : ∀ key, free .image key) (tag type : String) (t : Store) :
    (deleteImage tag type).Grounded free (fun _ _ => True) t := by
  unfold deleteImage
  generalize require "image_tag" tag = tag
  generalize require "image_type" type = type
  refine ((Plan.only_ofExcept tag).grounded t).bind fun tag u _ _ => ?_
  refine ((Plan.only_ofExcept type).grounded u).bind fun type v _ _ => ?_
  refine (Plan.grounded_request (c := .delete ⟨tag, type⟩) hfree).bind fun found w _ _ => ?_
  cases found with
  | none => exact .fail _ w
  | some image => exact .done fun _ _ => trivial

end Service

/-- No operation writes a row that points at nothing. One that removes images may leave rows behind
that do, so it is for databases where rows of images may have any key. -/
theorem Operation.grounded_plan (s : Service) (op : Operation)
    (hglobal : ∀ k, free k (s.cascade k).globalKey)
    (hremoves : (∃ tag type, op = .deleteImage tag type) → ∀ key, free .image key) (t : Store) :
    (op.plan s).Grounded free (fun _ _ => True) t := by
  cases op with
  | resolve k raw caller =>
    rw [plan]
    cases hraw : Identity.normalize raw with
    | error cause =>
      rw [Service.resolve_of_normalize_error hraw]
      exact .fail _ t
    | ok identity =>
      rw [Service.resolve_of_normalize hraw]
      exact Service.grounded_resolve (hglobal k) (fun mac => Service.canonical_of_mac? hraw) caller
        (fun answer _ => answer) t
  | assign k raw key =>
    cases hraw : Identity.normalize raw with
    | error cause =>
      rw [Service.plan_assign_of_invalid s hraw]
      exact .fail _ t
    | ok identity =>
      rw [Service.plan_assign_eq s hraw]
      exact (Service.grounded_pick key t).bind fun found u _ hkey =>
        Service.grounded_give (fun mac => Service.canonical_of_mac? hraw) hkey
  | available k => exact (Plan.only_request (c := .available k) trivial).grounded t
  | networkDefaults ip => exact (Service.only_networkDefaults ip).grounded t
  | parameters id => exact Service.grounded_parameters id t
  | createImage image => exact Service.grounded_createImage s image t
  | deleteImage tag type => exact Service.grounded_deleteImage (hremoves ⟨tag, type, rfl⟩) tag type t
  | locateImage image => exact (Service.only_locateImage s image).grounded t

end FleetBoot
