import FleetBoot.Service.Resolve
import FleetBoot.Proofs.Plan.World

/-! What the service answers for an entry of the catalog, of either kind, as far as objects can be
read and signed. -/
namespace FleetBoot

namespace Kind

/-- What a device is answered. -/
abbrev Answer : Kind → Type
  | .payload => AssignedPayload
  | .image => BootConfig

def answerKey : {k : Kind} → k.Answer → k.Key
  | .payload, p => p.id
  | .image, c => c.key

end Kind

namespace Service
variable {s : Service} {ρ : (c : Call) → c.Answer} {k : Kind}

/-- The cascade of either kind. -/
def cascade (s : Service) : (k : Kind) → Cascade k k.Answer
  | .payload => s.payloads
  | .image => s.images

/-- Resolves a raw name for either kind. -/
def resolve (s : Service) (raw : String) (caller : Option Address) :
    (k : Kind) → Plan ServiceError k.Answer
  | .payload => s.resolvePayload raw caller
  | .image => s.resolveImage raw caller

theorem resolve_of_normalize {raw : String} {identity : Identity}
    (h : Identity.normalize raw = .ok identity) (s : Service) (caller : Option Address) (k : Kind) :
    s.resolve raw caller k = Resolution.answer <$> (s.cascade k).resolve identity caller := by
  cases k <;> simp [resolve, resolvePayload, resolveImage, identify, h, cascade]

/-- The command line that a reading gives. -/
def cmdlineOf : Except AssetError (List UInt8) → String
  | .ok bytes => cmdlineText bytes
  | .error _ => ""

/-- The default for all, with the command line that lies with its objects. -/
def globalEntry (s : Service) (ρ : (c : Call) → c.Answer) : (k : Kind) → k.Entry
  | .payload => s.globalPayload
  | .image => s.globalImageWith
      (cmdlineOf (ρ (.fetch s.defaults.bucket (objectKey s.defaults.image "cmdline"))))

@[simp] theorem keyOf_globalEntry (s : Service) (ρ : (c : Call) → c.Answer) (k : Kind) :
    Kind.keyOf (s.globalEntry ρ k) = (s.cascade k).globalKey := by cases k <;> rfl

theorem eval_global (s : Service) (ρ : (c : Call) → c.Answer) (k : Kind) :
    (s.cascade k).global.eval ρ = .ok (s.globalEntry ρ k) := by
  cases k with
  | payload => rfl
  | image =>
    change (s.globalImage).eval ρ = .ok (s.globalImageWith (cmdlineOf (ρ (.fetch _ _))))
    rw [globalImage, Plan.bind_eq, Plan.eval_bind, Plan.eval_attempt]
    cases ρ (.fetch s.defaults.bucket (objectKey s.defaults.image "cmdline")) <;> rfl

theorem only_global (s : Service) (k : Kind) : (s.cascade k).global.Only Call.OnObjects := by
  cases k with
  | payload => trivial
  | image =>
    refine (Plan.only_attempt (ε := ServiceError) trivial).bind fun answer => ?_
    cases answer <;> trivial

theorem within_global (s : Service) (k : Kind) : Plan.Within 1 (s.cascade k).global := by
  cases k with
  | payload => exact .done 1 _
  | image =>
    refine (Plan.within_attempt (ε := ServiceError) _).bind (m := 0) fun answer => ?_
    cases answer <;> exact .done 0 _

/-- The objects of an image: the three that every image has, and then its file. -/
def objectsOf (i : Image) : List String :=
  ["initrd.img", "vmlinuz", "rootfs.cpio.gz"] ++ (i.file.filter (!·.isEmpty)).toList

def signingOf (s : Service) (i : Image) (object : String) : Signing :=
  ⟨s.bucketOr i.bucket, objectKey (s.imageOr i.name) object, s.lifetime⟩

/-- The address that a signing gives, if it gives one. -/
def urlOf (ρ : (c : Call) → c.Answer) (signing : Signing) : SignedUrl :=
  .ofHttps ((ρ (.presign signing)).toOption.getD "")

/-- The signed objects of an image all of whose objects can be signed. -/
def assets (s : Service) (ρ : (c : Call) → c.Answer) (i : Image) : ImageAssets where
  initrd := urlOf ρ (s.signingOf i "initrd.img")
  kernel := urlOf ρ (s.signingOf i "vmlinuz")
  rootfs := urlOf ρ (s.signingOf i "rootfs.cpio.gz")
  file := (i.file.filter (!·.isEmpty)).map fun name => urlOf ρ (s.signingOf i name)

/-- All that the answer needs can be signed. -/
def Signs (s : Service) (ρ : (c : Call) → c.Answer) : {k : Kind} → k.Entry → Prop
  | .payload, _ => True
  | .image, i => ∀ object ∈ objectsOf i, ∃ url, ρ (.presign (s.signingOf i object)) = .ok url

theorem signs_of_presign
    (h : k = .image → ∀ signing, ∃ url, ρ (.presign signing) = .ok url) (e : k.Entry) :
    s.Signs ρ e := by
  cases k with
  | payload => trivial
  | image => exact fun object _ => h rfl (s.signingOf e object)

/-- The answer for an entry of the catalog. -/
def answer (s : Service) (ρ : (c : Call) → c.Answer) (mac : String) (identity : Identity) :
    {k : Kind} → k.Entry → k.Answer
  | .payload, p => .new mac p
  | .image, i => .new i (s.assets ρ i) identity.hostName

@[simp] theorem answerKey_answer (s : Service) (ρ : (c : Call) → c.Answer) (mac : String)
    (identity : Identity) (e : k.Entry) :
    Kind.answerKey (s.answer ρ mac identity e) = Kind.keyOf e := by cases k <;> rfl

theorem globalEntry_congr {ρ' : (c : Call) → c.Answer} (s : Service)
    (h : ∀ c : Call, c.OnObjects → ρ c = ρ' c) : s.globalEntry ρ k = s.globalEntry ρ' k := by
  cases k with
  | payload => rfl
  | image => simp only [globalEntry, h (.fetch _ _) trivial]

theorem answer_congr {ρ' : (c : Call) → c.Answer} (s : Service)
    (h : ∀ c : Call, c.OnObjects → ρ c = ρ' c) (mac : String) (identity : Identity)
    (e : k.Entry) : s.answer ρ mac identity e = s.answer ρ' mac identity e := by
  have hurl (signing : Signing) : urlOf ρ signing = urlOf ρ' signing := by
    rw [urlOf, urlOf, h (.presign signing) trivial]
  cases k with
  | payload => rfl
  | image => simp only [answer, assets, hurl]

/-- An entry as answers show it: an image whose file has no name has no file. -/
def shown : {k : Kind} → k.Entry → k.Entry
  | .payload, p => p
  | .image, i => { i with file := i.file.filter (!·.isEmpty) }

/-- An entry is answered like the default for all only if it looks like it. -/
theorem answer_eq_global_iff (s : Service) (ρ : (c : Call) → c.Answer) (mac : String)
    (identity : Identity) (e : k.Entry) :
    s.answer ρ mac identity e = s.answer ρ mac identity (s.globalEntry ρ k) ↔
      shown e = s.globalEntry ρ k := by
  cases k with
  | payload =>
    obtain ⟨id, directory⟩ := e
    simp [answer, AssignedPayload.new, shown, globalEntry, globalPayload]
  | image =>
    obtain ⟨name, bucket, tag, type, cmdline, file⟩ := e
    constructor
    · intro h
      obtain ⟨rfl, rfl, rfl, rfl, rfl, -, -, -, hfile, -⟩ := BootConfig.mk.inj h
      have hfile : file.filter (!·.isEmpty) = none := Option.map_eq_none_iff.mp hfile
      simp only [shown, hfile, globalEntry, globalImageWith]
    · intro h
      obtain ⟨rfl, rfl, rfl, rfl, rfl, hfile⟩ := Image.mk.inj h
      simp [answer, BootConfig.new, assets, signingOf, hfile, globalEntry, globalImageWith]

theorem eval_sign_bind {β : Type} (signing : Signing) (f : SignedUrl → Plan AssetError β) :
    ((sign signing).bind f).eval ρ =
      Except.bind (ε := AssetError) (ρ (.presign signing)) fun _ =>
        (f (urlOf ρ signing)).eval ρ := by
  rw [sign, Plan.bind_eq, Plan.eval_bind, Plan.eval_bind, Plan.eval_ask, urlOf]
  cases ρ (.presign signing) <;> rfl

/-- The signed objects of an image, or the first failure among the signings of these. -/
def signAll (s : Service) (ρ : (c : Call) → c.Answer) (i : Image) (objects : List String) :
    Except AssetError ImageAssets :=
  objects.foldr (fun object rest =>
    Except.bind (ε := AssetError) (ρ (.presign (s.signingOf i object))) fun _ => rest)
    (.ok (s.assets ρ i))

theorem signAll_ok {i : Image} {objects : List String}
    (h : ∀ object ∈ objects, ∃ url, ρ (.presign (s.signingOf i object)) = .ok url) :
    s.signAll ρ i objects = .ok (s.assets ρ i) := by
  induction objects with
  | nil => rfl
  | cons object objects ih =>
    obtain ⟨url, hurl⟩ := h object List.mem_cons_self
    rw [signAll, List.foldr_cons, hurl]
    exact ih fun o ho => h o (List.mem_cons_of_mem object ho)

theorem signAll_error {i : Image} {objects : List String}
    (h : ¬ ∀ object ∈ objects, ∃ url, ρ (.presign (s.signingOf i object)) = .ok url) :
    ∃ cause, s.signAll ρ i objects = .error cause := by
  induction objects with
  | nil => exact (h nofun).elim
  | cons object objects ih =>
    rw [signAll, List.foldr_cons]
    cases hurl : ρ (.presign (s.signingOf i object)) with
    | error cause => exact ⟨cause, rfl⟩
    | ok url => exact ih fun hall => h (List.forall_mem_cons.mpr ⟨⟨url, hurl⟩, hall⟩)

theorem eval_locate (s : Service) (ρ : (c : Call) → c.Answer) (i : Image) :
    (s.locate i.bucket i.name i.file none).eval ρ = s.signAll ρ i (objectsOf i) := by
  simp only [locate, signAll, objectsOf, assets, signingOf, Plan.bind_eq, eval_sign_bind,
    Option.getD_none]
  cases i.file.filter (!·.isEmpty) with
  | none => rfl
  | some name =>
    simp only [eval_sign_bind, List.cons_append, List.nil_append, Option.toList_some,
      List.foldr_cons, List.foldr_nil, Option.map_some, Plan.pure_eq, Plan.eval]

theorem eval_imageAssets_ok {i : Image} (h : s.Signs ρ (k := .image) i) :
    (s.imageAssets i).eval ρ = .ok (s.assets ρ i) := by
  rw [imageAssets, Plan.eval_mapError, eval_locate, signAll_ok h]
  rfl

theorem eval_imageAssets_error {i : Image} (h : ¬ s.Signs ρ (k := .image) i) :
    ∃ cause, (s.imageAssets i).eval ρ = .error (.objectStore cause) := by
  obtain ⟨cause, hc⟩ := signAll_error h
  refine ⟨cause, ?_⟩
  rw [imageAssets, Plan.eval_mapError, eval_locate, hc]
  rfl

theorem only_sign (signing : Signing) : (sign signing).Only Call.OnObjects :=
  (Plan.only_ask (c := .presign signing) trivial).bind fun _ => trivial

theorem only_locate (s : Service) (bucket image : String) (file : Option String)
    (lifetime : Option Nat) : (s.locate bucket image file lifetime).Only Call.OnObjects := by
  refine (only_sign _).bind fun _ => (only_sign _).bind fun _ => (only_sign _).bind fun _ => ?_
  split
  · exact (only_sign _).bind fun _ => trivial
  · trivial

theorem only_imageAssets (s : Service) (i : Image) :
    (s.imageAssets i).Only Call.OnObjects := (only_locate s _ _ _ _).mapError _

theorem within_sign (signing : Signing) : Plan.Within 1 (sign signing) :=
  (Plan.within_ask (.presign signing)).bind fun _ => .done 0 _

theorem within_imageAssets (s : Service) (i : Image) : Plan.Within 4 (s.imageAssets i) := by
  refine Plan.Within.mapError ?_ _
  refine (within_sign _).bind (m := 3) fun _ => (within_sign _).bind (m := 2) fun _ =>
    (within_sign _).bind (m := 1) fun _ => ?_
  split
  · exact (within_sign _).bind fun _ => .done 0 _
  · exact .done 1 _

theorem eval_deliver_ok {mac : String} {identity : Identity} {e : k.Entry} (h : s.Signs ρ e) :
    ((s.cascade k).deliver mac identity e).eval ρ = .ok (s.answer ρ mac identity e) := by
  cases k with
  | payload => rfl
  | image =>
    change ((s.imageAssets e).bind fun a => .done (BootConfig.new e a identity.hostName)).eval ρ = _
    rw [Plan.eval_bind, eval_imageAssets_ok h]
    rfl

theorem eval_deliver_error (mac : String) (identity : Identity) {e : k.Entry}
    (h : ¬ s.Signs ρ e) :
    ∃ cause, ((s.cascade k).deliver mac identity e).eval ρ = .error (.objectStore cause) := by
  cases k with
  | payload => exact (h trivial).elim
  | image =>
    obtain ⟨cause, hc⟩ := eval_imageAssets_error h
    refine ⟨cause, ?_⟩
    change ((s.imageAssets e).bind fun a => .done (BootConfig.new e a identity.hostName)).eval ρ = _
    rw [Plan.eval_bind, hc]
    rfl

theorem only_deliver (s : Service) (mac : String) (identity : Identity) (e : k.Entry) :
    ((s.cascade k).deliver mac identity e).Only Call.OnObjects := by
  cases k with
  | payload => trivial
  | image => exact (only_imageAssets s e).bind fun _ => trivial

theorem within_deliver (s : Service) (mac : String) (identity : Identity) (e : k.Entry) :
    Plan.Within 4 ((s.cascade k).deliver mac identity e) := by
  cases k with
  | payload => exact .done 4 _
  | image => exact (within_imageAssets s e).bind (m := 0) fun _ => .done 0 _

end Service
end FleetBoot
