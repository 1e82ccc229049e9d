import FleetBoot.Catalog.Codec
import FleetBoot.Config.Codec
import FleetBoot.Proofs.Address.Cidr
import FleetBoot.Proofs.Json.Text

/-! What is written of a record is read back as the record, also when it was read itself, whatever
it was read from: from a value with members that the record does not have, without such as may be
absent, or with a block that is spelled otherwise. -/
namespace FleetBoot
open Json

/-- An object is plain whose names are listed in order. -/
theorem Json.Plain.record {d : Nat} {members : List (String × Json)} (names : List String)
    (hnames : members.map (·.1) = names) (hordered : names.Pairwise (· < ·))
    (h : ∀ m ∈ members, Plain d m.2) : Plain (d + 1) (.object members) := by
  subst hnames
  exact .object (List.pairwise_map.mp hordered) h

namespace Payload

theorem ofJson?_toJson (p : Payload) : ofJson? p.toJson = some p := rfl

theorem plain_toJson (p : Payload) (d : Nat) : Plain (d + 1) p.toJson :=
  .record ["payload_directory", "payload_id"] rfl (by decide) (by simp [Plain.string])

end Payload

namespace AssignedPayload

theorem ofJson?_toJson (a : AssignedPayload) : ofJson? a.toJson = some a := rfl

theorem plain_toJson (a : AssignedPayload) (d : Nat) : Plain (d + 1) a.toJson :=
  .record ["mac_address", "payload_directory", "payload_id"] rfl (by decide)
    (by simp [Plain.string])

end AssignedPayload

namespace ImageKey

theorem ofJson?_toJson (k : ImageKey) : ofJson? k.toJson = some k := rfl

theorem plain_toJson (k : ImageKey) (d : Nat) : Plain (d + 1) k.toJson :=
  .record ["image_tag", "image_type"] rfl (by decide) (by simp [Plain.string])

end ImageKey

namespace Image

theorem ofJson?_toJson (i : Image) : ofJson? i.toJson = some i := by
  obtain ⟨name, bucket, tag, type, cmdline, _ | file⟩ := i <;> rfl

theorem plain_toJson (i : Image) (d : Nat) : Plain (d + 1) i.toJson := by
  obtain ⟨name, bucket, tag, type, cmdline, _ | file⟩ := i
  · refine .record ["image_bucket", "image_cmdline", "image_name", "image_tag", "image_type"] rfl
      (by decide) ?_
    simp [members, withOption, Plain.string]
  · refine .record ["image_bucket", "image_cmdline", "image_file", "image_name", "image_tag",
      "image_type"] rfl (by decide) ?_
    simp [members, withOption, Plain.string]

end Image

theorem imageAssignmentOfJson?_json (a : Assignment .image) :
    imageAssignmentOfJson? (imageAssignmentJson a) = some a := rfl

theorem plain_imageAssignmentJson (a : Assignment .image) (d : Nat) :
    Plain (d + 1) (imageAssignmentJson a) :=
  .record ["image_tag", "image_type", "mac_address"] rfl (by decide) (by simp [Plain.string])

namespace NetworkTarget

theorem ofJson?_toJson (t : NetworkTarget) : ofJson? t.toJson = some t := by
  cases t <;> rfl

theorem plain_toJson (t : NetworkTarget) (d : Nat) : Plain (d + 1) t.toJson := by
  cases t with
  | payload id => exact .record ["kind", "payload_id"] rfl (by decide) (by simp [Plain.string])
  | image key =>
    exact .record ["image_tag", "image_type", "kind"] rfl (by decide) (by simp [Plain.string])

end NetworkTarget

namespace NetworkDefault

theorem ofJson?_toJson (n : NetworkDefault) : ofJson? n.toJson = some n := by
  obtain ⟨cidr, target⟩ := n
  cases target <;> rfl

theorem plain_toJson (n : NetworkDefault) (d : Nat) : Plain (d + 2) n.toJson :=
  .record ["cidr", "target"] rfl (by decide) (by simp [Plain.string, NetworkTarget.plain_toJson])

end NetworkDefault

namespace SignedUrl

theorem ofJson?_toJson (u : SignedUrl) : ofJson? u.toJson = some u := rfl

theorem plain_toJson (u : SignedUrl) (d : Nat) : Plain (d + 1) u.toJson :=
  .record ["http", "https"] rfl (by decide) (by simp [Plain.string])

end SignedUrl

namespace BootConfig

theorem ofJson?_toJson (c : BootConfig) : ofJson? c.toJson = some c := by
  obtain ⟨name, bucket, tag, type, cmdline, initrd, kernel, rootfs, _ | file, hostname⟩ := c <;> rfl

theorem plain_toJson (c : BootConfig) (d : Nat) : Plain (d + 2) c.toJson := by
  obtain ⟨name, bucket, tag, type, cmdline, initrd, kernel, rootfs, _ | file, hostname⟩ := c
  · refine .record ["hostname", "image_bucket", "image_cmdline", "image_name", "image_tag",
      "image_type", "initrd_url", "kernel_url", "rootfs_url"] rfl (by decide) ?_
    simp [ImageAssets.members, withOption, Plain.string, SignedUrl.plain_toJson]
  · refine .record ["hostname", "image_bucket", "image_cmdline", "image_name", "image_tag",
      "image_type", "image_url", "initrd_url", "kernel_url", "rootfs_url"] rfl (by decide) ?_
    simp [ImageAssets.members, withOption, Plain.string, SignedUrl.plain_toJson]

end BootConfig

namespace Cidr

theorem ofJson?_toJson (c : Cidr) : ofJson? c.toJson = some c := parse?_text c

end Cidr

namespace Config

theorem word?_wordJson (n : UInt64) : word? (wordJson n) = some n := by
  have hn : n.toNat < Nat.pow 2 64 := n.toNat_lt
  change (if n.toNat < Nat.pow 2 64 then some (UInt64.ofNat n.toNat) else none) = some n
  rw [if_pos hn, UInt64.ofNat_toNat]

theorem plain_wordJson (n : UInt64) (d : Nat) : Plain d (wordJson n) := by
  have hn := n.toNat_lt
  exact .integer (by omega) (by omega)

-- Numbers are read with a check of their size, so that the sections that have one do not read back
-- by computation alone.
theorem serverOf?_object (s : ServerSettings) :
    serverOf? false (.object [("http_addr", .string s.httpAddress),
      ("request_timeout_ms", wordJson s.requestTimeoutMs)]) = some s := by
  change (word? (wordJson s.requestTimeoutMs)).bind (fun n => some ⟨s.httpAddress, n⟩) = some s
  rw [word?_wordJson]
  rfl

theorem objectsOf?_object (o : ObjectSettings) :
    objectsOf? false (.object [("endpoint", (o.endpoint.map .string).getD .null),
      ("region", .string o.region)]) = some o := by
  obtain ⟨_ | endpoint, region⟩ := o <;> rfl

theorem assetsOf?_object (a : AssetSettings) :
    assetsOf? false (.object [("url_ttl_secs", wordJson a.urlTtlSecs)]) = some a := by
  change (word? (wordJson a.urlTtlSecs)).bind (fun n => some ⟨n⟩) = some a
  rw [word?_wordJson]
  rfl

theorem ofJson?_toJson (c : Config) : ofJson? c.toJson = some c := by
  have hread : ofJson? c.toJson = (serverOf? false _).bind fun server =>
      (objectsOf? false _).bind fun objects => (assetsOf? false _).bind fun assets =>
        some { c with server := server, objects := objects, assets := assets } := rfl
  rw [hread, serverOf?_object, objectsOf?_object, assetsOf?_object]
  rfl

theorem plain_toJson (c : Config) (d : Nat) : Plain (d + 2) c.toJson := by
  have hendpoint : Plain d ((c.objects.endpoint.map .string).getD .null) := by
    cases c.objects.endpoint
    · exact .null
    · exact .string _
  refine .record ["assets", "defaults", "logging", "object_store", "server", "storage", "template"]
    rfl (by decide) ?_
  simp only [List.forall_mem_cons, List.not_mem_nil, false_imp_iff, implies_true, and_true]
  refine ⟨.record ["url_ttl_secs"] rfl (by decide) ?_,
    .record ["bucket", "image", "image_tag", "image_type", "payload_directory", "payload_id"] rfl
      (by decide) ?_,
    .record ["json"] rfl (by decide) ?_, .record ["endpoint", "region"] rfl (by decide) ?_,
    .record ["http_addr", "request_timeout_ms"] rfl (by decide) ?_,
    .record ["database_path"] rfl (by decide) ?_, .record ["path"] rfl (by decide) ?_⟩
  all_goals simp [Plain.string, Plain.bool, plain_wordJson, hendpoint]

end Config

/-- What can be written as JSON and read back: the records of the catalog and what is answered with
them, blocks, and the settings. -/
inductive RecordType where
  | payload
  | assignedPayload
  | imageKey
  | image
  | imageAssignment
  | networkTarget
  | networkDefault
  | signedUrl
  | bootConfig
  | cidr
  | config

namespace RecordType

abbrev Value : RecordType → Type
  | .payload => Payload
  | .assignedPayload => AssignedPayload
  | .imageKey => ImageKey
  | .image => Image
  | .imageAssignment => Assignment .image
  | .networkTarget => NetworkTarget
  | .networkDefault => NetworkDefault
  | .signedUrl => SignedUrl
  | .bootConfig => BootConfig
  | .cidr => Cidr
  | .config => Config

def toJson : (r : RecordType) → r.Value → Json
  | .payload => Payload.toJson
  | .assignedPayload => AssignedPayload.toJson
  | .imageKey => ImageKey.toJson
  | .image => Image.toJson
  | .imageAssignment => imageAssignmentJson
  | .networkTarget => NetworkTarget.toJson
  | .networkDefault => NetworkDefault.toJson
  | .signedUrl => SignedUrl.toJson
  | .bootConfig => BootConfig.toJson
  | .cidr => Cidr.toJson
  | .config => Config.toJson

def ofJson? : (r : RecordType) → Json → Option r.Value
  | .payload => Payload.ofJson?
  | .assignedPayload => AssignedPayload.ofJson?
  | .imageKey => ImageKey.ofJson?
  | .image => Image.ofJson?
  | .imageAssignment => imageAssignmentOfJson?
  | .networkTarget => NetworkTarget.ofJson?
  | .networkDefault => NetworkDefault.ofJson?
  | .signedUrl => SignedUrl.ofJson?
  | .bootConfig => BootConfig.ofJson?
  | .cidr => Cidr.ofJson?
  | .config => Config.ofJson?

/-- What is written of a value that was read. -/
def recode (r : RecordType) (v : Json) : Option Json := (r.ofJson? v).map r.toJson

variable {r : RecordType}

theorem ofJson?_toJson (x : r.Value) : r.ofJson? (r.toJson x) = some x := by
  cases r with
  | payload => exact Payload.ofJson?_toJson x
  | assignedPayload => exact AssignedPayload.ofJson?_toJson x
  | imageKey => exact ImageKey.ofJson?_toJson x
  | image => exact Image.ofJson?_toJson x
  | imageAssignment => exact imageAssignmentOfJson?_json x
  | networkTarget => exact NetworkTarget.ofJson?_toJson x
  | networkDefault => exact NetworkDefault.ofJson?_toJson x
  | signedUrl => exact SignedUrl.ofJson?_toJson x
  | bootConfig => exact BootConfig.ofJson?_toJson x
  | cidr => exact Cidr.ofJson?_toJson x
  | config => exact Config.ofJson?_toJson x

theorem plain_toJson (x : r.Value) (d : Nat) : Plain (d + 2) (r.toJson x) := by
  cases r with
  | payload => exact Payload.plain_toJson x (d + 1)
  | assignedPayload => exact AssignedPayload.plain_toJson x (d + 1)
  | imageKey => exact ImageKey.plain_toJson x (d + 1)
  | image => exact Image.plain_toJson x (d + 1)
  | imageAssignment => exact plain_imageAssignmentJson x (d + 1)
  | networkTarget => exact NetworkTarget.plain_toJson x (d + 1)
  | networkDefault => exact NetworkDefault.plain_toJson x d
  | signedUrl => exact SignedUrl.plain_toJson x (d + 1)
  | bootConfig => exact BootConfig.plain_toJson x d
  | cidr => exact .string _
  | config => exact Config.plain_toJson x d

/-- What is written of a value is read back as the value, and so is its text. Of whatever a value
was read from, the value that was read is read back from what is written of it, and the same is
written of it again. -/
theorem round_trip (r : RecordType) :
    (∀ x, r.ofJson? (r.toJson x) = some x ∧
      ∀ d, Json.parse? (d + 2) (r.toJson x).text = some (r.toJson x)) ∧
      ∀ v, (r.recode v).bind r.ofJson? = r.ofJson? v ∧ (r.recode v).bind r.recode = r.recode v := by
  refine ⟨fun x => ⟨ofJson?_toJson x, fun d => (plain_toJson x d).parse?_text⟩, fun v => ?_⟩
  unfold recode
  cases r.ofJson? v with
  | none => exact ⟨rfl, rfl⟩
  | some x =>
    have hback : r.ofJson? (r.toJson x) = some x := ofJson?_toJson x
    exact ⟨hback, congrArg (Option.map r.toJson) hback⟩

example : RecordType.cidr.recode (.string " 10.0.0.77/8") = some (.string "10.0.0.0/8") := by cbv

end RecordType
end FleetBoot
