import FleetBoot.Objects.Cloud
import FleetBoot.Proofs.Plan.Under
import FleetBoot.Proofs.Service.Choice
import Mathlib

/-! For how long addresses can be signed. A store in the cloud signs for a week at most, and the
settings may ask for more. -/
namespace FleetBoot

namespace Config
variable {c : Config}

/-- What settings are accepted. -/
theorem validate_eq_ok_iff : c.validate = .ok () ↔
    (∀ setting ∈ c.required, isBlankText setting.2 = false) ∧ c.assets.urlTtlSecs ≠ 0 ∧
      c.server.requestTimeoutMs ≠ 0 := by
  have hfirst : (c.required.find? fun setting => isBlankText setting.2) = none ↔
      ∀ setting ∈ c.required, isBlankText setting.2 = false := by
    simp only [List.find?_eq_none, Bool.not_eq_true]
  rw [← hfirst]
  unfold validate fault?
  cases c.required.find? fun setting => isBlankText setting.2 with
  | some setting => simp
  | none =>
    by_cases hurl : c.assets.urlTtlSecs = 0
    · simp [hurl]
    · by_cases htimeout : c.server.requestTimeoutMs = 0 <;> simp [hurl, htimeout]

/-- The lifetime of addresses is refused only if it is zero. -/
theorem validate_lifetime (h : c.validate = .ok ()) (seconds : UInt64) :
    ({ c with assets := ⟨seconds⟩ } : Config).validate = .ok () ↔ seconds ≠ 0 := by
  obtain ⟨hrequired, -, htimeout⟩ := validate_eq_ok_iff.mp h
  rw [validate_eq_ok_iff]
  exact ⟨fun h => h.2.1, fun hseconds => ⟨hrequired, hseconds, htimeout⟩⟩

end Config

/-- Signings are answered by `sign`. -/
def Call.SignedBy (sign : Signing → Except AssetError String) : (c : Call) → c.Answer → Prop
  | .presign s, a => a = sign s
  | _, _ => True

namespace Cascade
variable {k : Kind} {α : Type} {c : Cascade k α} {possible : (c : Call) → c.Answer → Prop}
  {good : α → Prop} {bad : ServiceError → Prop}

theorem endsUnder_request (hother : ∀ e, (∀ cause, e ≠ .objectStore cause) → bad e) (call : Call)
    (h : ¬ call.OnObjects) : (Plan.request call).EndsUnder possible (fun _ => True) bad := by
  refine Plan.EndsUnder.mapError fun a _ => Plan.endsUnder_ofExcept (fun _ _ => trivial) ?_
  intro e _
  apply hother
  cases call <;> first | exact absurd trivial h | exact nofun

theorem endsUnder_deviceRow (hother : ∀ e, (∀ cause, e ≠ .objectStore cause) → bad e)
    (identity : Identity) : (deviceRow k identity).EndsUnder possible (fun _ => True) bad := by
  refine (endsUnder_request hother (.find k identity (rowLimit identity)) id).bind
    fun rows _ => Plan.endsUnder_ofExcept (fun _ _ => trivial) fun e he => hother e ?_
  unfold selectRow at he
  split at he <;> cases he
  exact nofun

theorem endsUnder_deviceEntry (hother : ∀ e, (∀ cause, e ≠ .objectStore cause) → bad e)
    (hglobal : c.global.EndsUnder possible (fun _ => True) bad) (identity : Identity) :
    (c.deviceEntry identity).EndsUnder possible (fun _ => True) bad := by
  rw [deviceEntry_eq]
  refine (endsUnder_deviceRow hother identity).bind fun row _ => ?_
  cases row with
  | none => trivial
  | some row =>
    have hentry : (c.rowEntry row).EndsUnder possible (fun _ => True) bad := by
      unfold rowEntry
      split
      · trivial
      · split
        · exact hglobal.bind fun _ _ => trivial
        · trivial
    exact hentry.bind fun _ _ => trivial

theorem endsUnder_defaultEntry (hother : ∀ e, (∀ cause, e ≠ .objectStore cause) → bad e)
    (hglobal : c.global.EndsUnder possible (fun _ => True) bad) (caller : Option Address) :
    (c.defaultEntry caller).EndsUnder possible (fun _ => True) bad := by
  have hnetwork : (networkEntry k caller).EndsUnder possible (fun _ => True) bad := by
    cases caller with
    | none => trivial
    | some ip => exact endsUnder_request hother (.networkDefault k ip) id
  refine hnetwork.bind fun entry _ => ?_
  cases entry with
  | none => exact hglobal.bind fun _ _ => trivial
  | some entry => trivial

/-- A resolution succeeds only with what is delivered. It fails as the delivery does, or the reading
of the default, or else with no failure of the object store. -/
theorem endsUnder_resolve (c : Cascade k α)
    (hother : ∀ e, (∀ cause, e ≠ .objectStore cause) → bad e)
    (hglobal : c.global.EndsUnder possible (fun _ => True) bad)
    (hdeliver : ∀ mac identity e, (c.deliver mac identity e).EndsUnder possible good bad)
    (identity : Identity) (caller : Option Address) :
    (c.resolve identity caller).EndsUnder possible (fun r => good r.answer) bad := by
  refine (endsUnder_deviceEntry hother hglobal identity).bind fun own _ => ?_
  split
  · exact (hdeliver _ identity _).bind fun _ h => h
  · refine (endsUnder_defaultEntry hother hglobal caller).bind fun entry _ => ?_
    exact (hdeliver _ identity _).bind fun _ h _ => h
  · exact hother _ nofun

end Cascade

namespace CloudStore
variable {c : CloudStore} {signature : Signed → Except String String} {s : Signing}

theorem le_longest_of_sign {url : String} (h : c.sign signature s = .ok url) :
    s.lifetime ≤ longest := by
  refine Nat.le_of_not_lt fun hlonger => ?_
  simp only [sign, presign, if_pos hlonger] at h
  cases h

/-- Of the failures, those for the lifetime are those for too long ones. -/
theorem lifetime_iff_of_sign {e : AssetError} (h : c.sign signature s = .error e) :
    (∃ detail, e = .lifetime detail) ↔ longest < s.lifetime := by
  by_cases hlonger : longest < s.lifetime
  · simp only [sign, presign, if_pos hlonger] at h
    cases h
    exact iff_of_true ⟨_, rfl⟩ hlonger
  · simp only [sign, presign, if_neg hlonger] at h
    change Except.mapError _ (signature ⟨c.base s.bucket s.key, s.seconds⟩) = _ at h
    cases hsigned : signature ⟨c.base s.bucket s.key, s.seconds⟩ with
    | ok url =>
      rw [hsigned] at h
      cases h
    | error reason =>
      rw [hsigned] at h
      cases h
      exact iff_of_false nofun hlonger

end CloudStore

namespace Service
variable {cloud : CloudStore} {signature : CloudStore.Signed → Except String String}

theorem endsUnder_sign (signing : Signing) :
    (Service.sign signing).EndsUnder (Call.SignedBy (cloud.sign signature))
      (fun _ => signing.lifetime ≤ CloudStore.longest)
      fun e => (∃ detail, e = .lifetime detail) ↔ CloudStore.longest < signing.lifetime := by
  rintro _ rfl
  cases hsign : cloud.sign signature signing with
  | ok url => exact CloudStore.le_longest_of_sign hsign
  | error e => exact CloudStore.lifetime_iff_of_sign hsign

/-- All objects of an image are signed for one lifetime, and so the first decides. -/
theorem endsUnder_locate (s : Service) (bucket image : String) (file : Option String)
    (lifetime : Option Nat) :
    (s.locate bucket image file lifetime).EndsUnder (Call.SignedBy (cloud.sign signature))
      (fun _ => lifetime.getD s.lifetime ≤ CloudStore.longest)
      fun e => (∃ detail, e = .lifetime detail) ↔
        CloudStore.longest < lifetime.getD s.lifetime := by
  have hsigned (object : String) :
      (Service.sign ⟨s.bucketOr bucket, objectKey (s.imageOr image) object,
        lifetime.getD s.lifetime⟩).EndsUnder (Call.SignedBy (cloud.sign signature))
        (fun _ => lifetime.getD s.lifetime ≤ CloudStore.longest)
        fun e => (∃ detail, e = .lifetime detail) ↔
          CloudStore.longest < lifetime.getD s.lifetime := endsUnder_sign _
  refine (hsigned "initrd.img").bind fun _ _ => (hsigned "vmlinuz").bind fun _ _ =>
    (hsigned "rootfs.cpio.gz").bind fun _ h => ?_
  cases file.filter (!·.isEmpty) with
  | none => exact h
  | some name => exact (hsigned name).bind fun _ h => h

/-- If the request failed for the lifetime of addresses, this is too long. -/
def ForTooLong (s : Service) (e : ServiceError) : Prop :=
  (∃ detail, e = .objectStore (.lifetime detail)) → CloudStore.longest < s.lifetime

theorem forTooLong_of_other (s : Service) (e : ServiceError)
    (h : ∀ cause, e ≠ .objectStore cause) : s.ForTooLong e := fun ⟨_, he⟩ => absurd he (h _)

theorem endsUnder_deliver (s : Service) (mac : String) (identity : Identity) (image : Image) :
    (s.images.deliver mac identity image).EndsUnder (Call.SignedBy (cloud.sign signature))
      (fun _ => s.lifetime ≤ CloudStore.longest) s.ForTooLong := by
  refine Plan.EndsUnder.bind (Plan.EndsUnder.mapError ?_) fun _ h => h
  refine (s.endsUnder_locate image.bucket image.name image.file none).mono (fun _ h => h) ?_
  rintro _ h ⟨detail, ⟨⟩⟩
  exact h.mp ⟨detail, rfl⟩

theorem endsUnder_resolveImage (s : Service) (raw : String) (caller : Option Address) :
    (s.resolveImage raw caller).EndsUnder (Call.SignedBy (cloud.sign signature))
      (fun _ => s.lifetime ≤ CloudStore.longest) s.ForTooLong := by
  have hidentify : (identify raw).EndsUnder (Call.SignedBy (cloud.sign signature))
      (fun _ => True) s.ForTooLong := by
    unfold identify
    split
    · trivial
    · exact s.forTooLong_of_other _ nofun
  refine hidentify.bind fun identity _ =>
    (s.images.endsUnder_resolve s.forTooLong_of_other ?_ s.endsUnder_deliver identity caller).bind
      fun _ h => h
  -- the default image is known even if its command line cannot be read
  intro answer _
  cases answer <;> trivial

/-- Settings are accepted with any lifetime but zero. Up to a week, a store in the cloud refuses no
address for its lifetime, and no image fails to be resolved for it. Beyond, it refuses every address
for it, and no image is resolved. -/
theorem lifetime_exact (c : Config) (hc : c.validate = .ok ()) (cloud : CloudStore)
    (signature : CloudStore.Signed → Except String String) (conditions : Conditions)
    (hcloud : ∀ s, conditions.reply (.presign s) = some (cloud.sign signature s)) (w : World) :
    let s := Service.ofConfig c
    let seconds := c.assets.urlTtlSecs.toNat
    (∀ t, ({ c with assets := ⟨t⟩ } : Config).validate = .ok () ↔ t ≠ 0) ∧
      (∀ bucket image file,
        (∃ detail, ((s.locate bucket image file none).run conditions .never w).1 =
          some (.error (.lifetime detail))) ↔ 604800 < seconds) ∧
      ∀ raw caller d resolved,
        ((s.resolveImage raw caller).run conditions d w).1 = some resolved →
          (seconds ≤ 604800 → ∀ detail, resolved ≠ .error (.objectStore (.lifetime detail))) ∧
          (604800 < seconds → ∀ answer, resolved ≠ .ok answer) := by
  intro s seconds
  have hanswer (call : Call) (v : World) :
      call.SignedBy (cloud.sign signature) (v.answer conditions call).1 := by
    cases call with
    | presign signing =>
      change (v.answer conditions (.presign signing)).1 = _
      simp only [World.answer, hcloud]
    | _ => trivial
  have hweek : CloudStore.longest < s.lifetime ↔ 604800 < seconds := by
    change 604800000 < seconds * 1000 ↔ _
    omega
  refine ⟨Config.validate_lifetime hc, fun bucket image file => ?_,
    fun raw caller d resolved hrun => ?_⟩
  · obtain ⟨located, hrun⟩ := Option.ne_none_iff_exists'.mp
      (Plan.run_never (s.locate bucket image file none) conditions w)
    obtain ⟨hok, herror⟩ := (s.endsUnder_locate bucket image file none).run hanswer hrun
    rw [hrun, ← hweek]
    cases located with
    | ok assets => simpa using hok assets rfl
    | error e => simpa using herror e rfl
  · obtain ⟨hok, herror⟩ := (s.endsUnder_resolveImage raw caller).run hanswer hrun
    constructor
    · rintro h detail rfl
      exact absurd (hweek.mp (herror _ rfl ⟨detail, rfl⟩)) (Nat.not_lt.mpr h)
    · rintro h answer rfl
      exact absurd (hweek.mpr h) (Nat.not_lt.mpr (hok answer rfl))

/-- Settings for just a week, under which nothing fails for its lifetime. -/
theorem lifetime_exact_week :
    let c : Config := { assets := ⟨604800⟩ }
    let cloud : CloudStore := ⟨none, "eu-north-1"⟩
    let signature (address : CloudStore.Signed) : Except String String :=
      .ok (address.base ++ "?X-Amz-Expires=" ++ String.ofList (Text.decimal address.expires))
    let conditions : Conditions :=
      { reply := fun | .presign s => some (cloud.sign signature s) | _ => none }
    c.validate = .ok () ∧ (∀ s, conditions.reply (.presign s) = some (cloud.sign signature s)) ∧
      ({ c with assets := ⟨604801⟩ } : Config).validate = .ok () ∧
      (∀ bucket image file detail,
        (((ofConfig c).locate bucket image file none).run conditions .never {}).1 ≠
          some (.error (.lifetime detail))) ∧
      ∀ raw caller resolved,
        (((ofConfig c).resolveImage raw caller).run conditions .never {}).1 = some resolved →
          ∀ detail, resolved ≠ .error (.objectStore (.lifetime detail)) := by
  intro c cloud signature conditions
  have hvalid : c.validate = .ok () := by cbv
  have hcloud (s : Signing) : conditions.reply (.presign s) = some (cloud.sign signature s) := rfl
  obtain ⟨hlifetimes, hlocate, hresolve⟩ :=
    lifetime_exact c hvalid cloud signature conditions hcloud {}
  have hseconds : c.assets.urlTtlSecs.toNat = 604800 := rfl
  rw [hseconds] at hlocate hresolve
  refine ⟨hvalid, hcloud, (hlifetimes 604801).mpr (by decide), fun bucket image file detail h => ?_,
    fun raw caller resolved h => (hresolve raw caller .never resolved h).1 (Nat.le_refl _)⟩
  exact Nat.lt_irrefl _ ((hlocate bucket image file).mp ⟨detail, h⟩)

/-- A second more is accepted as well, and an image in the cloud cannot be located under it. -/
theorem lifetime_unsignable :
    let c : Config := { assets := ⟨604801⟩ }
    let cloud : CloudStore := ⟨none, "eu-north-1"⟩
    let signature (address : CloudStore.Signed) : Except String String :=
      .ok (address.base ++ "?X-Amz-Expires=" ++ String.ofList (Text.decimal address.expires))
    let conditions : Conditions :=
      { reply := fun | .presign s => some (cloud.sign signature s) | _ => none }
    c.validate = .ok () ∧
      (((ofConfig c).locate "images" "ubuntu" none none).run conditions .never {}).1 =
        some (.error (.lifetime "longer than one week")) := by
  constructor
  · cbv
  · rfl

end Service
end FleetBoot
