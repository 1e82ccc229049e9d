import FleetBoot.Objects.Cloud
import FleetBoot.Proofs.Service.Answer
import FleetBoot.Proofs.Text.Blank
import FleetBoot.Proofs.Text.Search
import Mathlib

/-! The plain address beside a signed one. It has the first `https` of the whole text turned into
`http`. That is the scheme of an encrypted address, but of one without encryption it is a part of the
host, the path or the signature, if they have one. -/
namespace FleetBoot

namespace SignedUrl
variable {rest before after : List Char}

def encrypted : List Char := ['h', 't', 't', 'p', 's']
def plain : List Char := ['h', 't', 't', 'p']

theorem ofHttps_eq (url : String) :
    ofHttps url = ⟨url, String.ofList (Text.replaceFirst encrypted plain url.toList)⟩ := rfl

theorem replaceFirst_encrypted (rest : List Char) :
    Text.replaceFirst encrypted plain (encrypted ++ rest) = plain ++ rest :=
  Text.replaceFirst_of_firstAt (a := []) ⟨rfl, fun _ _ _ => Nat.zero_le _⟩

/-- The scheme of a plain address has no part in an `https`. -/
theorem cutAt?_plain (rest : List Char) :
    Text.cutAt? encrypted ("http://".toList ++ rest) =
      (Text.cutAt? encrypted rest).map fun (before, after) =>
        ("http://".toList ++ before, after) := by
  change Text.cutAt? ['h', 't', 't', 'p', 's']
    ('h' :: 't' :: 't' :: 'p' :: ':' :: '/' :: '/' :: rest) = _
  -- at each of the seven places in the scheme a letter of `https` is missed
  simp only [Text.cutAt?, Text.dropPrefix?, Char.reduceEq, if_true, if_false, Option.map_map]
  rfl

theorem replaceFirst_plain (rest : List Char) :
    Text.replaceFirst encrypted plain ("http://".toList ++ rest) =
      "http://".toList ++ Text.replaceFirst encrypted plain rest := by
  rw [Text.replaceFirst, cutAt?_plain, Text.replaceFirst]
  cases Text.cutAt? encrypted rest with
  | none => rfl
  | some parts =>
    obtain ⟨before, after⟩ := parts
    simp only [Option.map_some, List.append_assoc]

theorem ofHttps_encrypted (rest : String) :
    ofHttps ("https://" ++ rest) = ⟨"https://" ++ rest, "http://" ++ rest⟩ := by
  have htext : ("https://" ++ rest).toList = encrypted ++ ("://".toList ++ rest.toList) := by
    rw [String.toList_append]
    rfl
  have hplain : plain ++ ("://".toList ++ rest.toList) = ("http://" ++ rest).toList := by
    rw [String.toList_append]
    rfl
  rw [ofHttps_eq, htext, replaceFirst_encrypted, hplain, String.ofList_toList]

/-- Of a plain address all but the scheme is searched. -/
theorem ofHttps_plain (rest : String) :
    ofHttps ("http://" ++ rest) = ⟨"http://" ++ rest,
      "http://" ++ String.ofList (Text.replaceFirst encrypted plain rest.toList)⟩ := by
  rw [ofHttps_eq, String.toList_append, replaceFirst_plain, String.ofList_append,
    String.ofList_toList]

theorem ofHttps_plain_self_iff (rest : String) :
    ofHttps ("http://" ++ rest) = ⟨"http://" ++ rest, "http://" ++ rest⟩ ↔
      ¬ encrypted <:+: rest.toList := by
  rw [ofHttps_plain, SignedUrl.mk.injEq, and_iff_right rfl, String.append_right_inj,
    ← Text.replaceFirst_eq_self_iff (q := plain) (by decide), ← String.toList_inj,
    String.toList_ofList]

theorem ofHttps_plain_firstAt {rest before after : String}
    (h : Text.FirstAt encrypted before.toList after.toList rest.toList) :
    ofHttps ("http://" ++ rest) =
      ⟨"http://" ++ rest, "http://" ++ (before ++ "http" ++ after)⟩ := by
  rw [ofHttps_plain, Text.replaceFirst_of_firstAt h, String.ofList_append, String.ofList_append,
    String.ofList_toList, String.ofList_toList]
  rfl

/-- An address is cut where its signing is asked for. -/
theorem ofHttps_of_sign_bind {ρ : (c : Call) → c.Answer} {α : Type} {signing : Signing}
    {f : SignedUrl → Plan AssetError α} {a : α}
    (h : ((Service.sign signing).bind f).eval ρ = .ok a) :
    ∃ text, ρ (.presign signing) = .ok text ∧ (f (ofHttps text)).eval ρ = .ok a := by
  rw [Service.eval_sign_bind, Service.urlOf] at h
  cases htext : ρ (.presign signing) with
  | error cause =>
    rw [htext] at h
    cases h
  | ok text =>
    rw [htext] at h
    exact ⟨text, rfl, h⟩

/-- The address was signed with the plain one made from it. -/
def From (ρ : (c : Call) → c.Answer) (url : SignedUrl) : Prop :=
  ∃ signing, ρ (.presign signing) = .ok url.https ∧ url = ofHttps url.https

theorem from_of_presign {ρ : (c : Call) → c.Answer} {signing : Signing} {text : String}
    (h : ρ (.presign signing) = .ok text) : From ρ (ofHttps text) := ⟨signing, h, rfl⟩

theorem from_of_locate {s : Service} {ρ : (c : Call) → c.Answer} {bucket image : String}
    {file : Option String} {lifetime : Option Nat} {assets : ImageAssets}
    (h : (s.locate bucket image file lifetime).eval ρ = .ok assets) :
    ∀ url ∈ [assets.initrd, assets.kernel, assets.rootfs] ++ assets.file.toList, From ρ url := by
  obtain ⟨initrd, hinitrd, h⟩ := ofHttps_of_sign_bind h
  obtain ⟨kernel, hkernel, h⟩ := ofHttps_of_sign_bind h
  obtain ⟨rootfs, hrootfs, h⟩ := ofHttps_of_sign_bind h
  have hthree : ∀ url ∈ [ofHttps initrd, ofHttps kernel, ofHttps rootfs], From ρ url := by
    simp only [List.forall_mem_cons, List.not_mem_nil, false_imp_iff, implies_true, and_true]
    exact ⟨from_of_presign hinitrd, from_of_presign hkernel, from_of_presign hrootfs⟩
  revert h
  cases file.filter (!·.isEmpty) with
  | none =>
    intro h
    obtain rfl := Except.ok.inj h
    exact List.forall_mem_append.mpr ⟨hthree, nofun⟩
  | some name =>
    intro h
    obtain ⟨text, htext, h⟩ := ofHttps_of_sign_bind h
    obtain rfl := Except.ok.inj h
    refine List.forall_mem_append.mpr ⟨hthree, ?_⟩
    exact List.forall_mem_singleton.mpr (from_of_presign htext)

end SignedUrl

namespace CloudStore
variable {c : CloudStore} {s : Signing} {signed : Signed}

theorem base_of_presign (h : c.presign s = .ok signed) : signed.base = c.base s.bucket s.key := by
  unfold presign at h
  split at h
  · cases h
  · obtain rfl := Except.ok.inj h
    rfl

/-- In a region every address is an encrypted one. -/
theorem base_region (hendpoint : c.endpoint = none) (bucket key : String) :
    ∃ rest, c.base bucket key = "https://" ++ rest := by
  refine ⟨bucket ++ ".s3." ++ c.region ++ ".amazonaws.com/" ++
    String.ofList (Text.percentEncode key.toList), ?_⟩
  simp only [base, hendpoint, String.append_assoc]

/-- The slashes that an own address ends in are dropped. -/
theorem base_endpoint {scheme host : String} (hendpoint : c.endpoint = some (scheme ++ host))
    (hhost : ∃ d ∈ host.toList, d ≠ '/') (bucket key : String) :
    c.base bucket key = scheme ++ (String.ofList (Text.dropTrailing (· == '/') host.toList) ++ "/" ++
      bucket ++ "/" ++ String.ofList (Text.percentEncode key.toList)) := by
  have hdrop : Text.dropTrailing (· == '/') (scheme ++ host).toList =
      scheme.toList ++ Text.dropTrailing (· == '/') host.toList := by
    rw [String.toList_append]
    exact Text.dropTrailing_append (by simpa using hhost)
  simp only [base, hendpoint, hdrop, String.ofList_append, String.ofList_toList,
    String.append_assoc]

end CloudStore

namespace SignedUrl

/-- What encrypted and plain addresses start with. -/
def schemes : List String := ["https://", "http://"]

theorem scheme_eq {a b s t : String} (ha : a ∈ schemes) (hb : b ∈ schemes)
    (h : a ++ s = b ++ t) : a = b := by
  have hchars : a.toList ++ s.toList = b.toList ++ t.toList := by
    rw [← String.toList_append, h, String.toList_append]
  simp only [schemes, List.mem_cons, List.not_mem_nil, or_false] at ha hb
  rcases ha with rfl | rfl <;> rcases hb with rfl | rfl <;> first | rfl | simp at hchars

theorem http_eq_iff {url http : String} : (ofHttps url).http = http ↔ ofHttps url = ⟨url, http⟩ :=
  ⟨fun h => h ▸ rfl, fun h => h ▸ rfl⟩

theorem ofHttps_self_iff {scheme rest : String} (hscheme : scheme ∈ schemes) :
    ofHttps (scheme ++ rest) = ⟨scheme ++ rest, "http://" ++ rest⟩ ↔
      (scheme = "http://" → ¬ encrypted <:+: rest.toList) := by
  simp only [schemes, List.mem_cons, List.not_mem_nil, or_false] at hscheme
  rcases hscheme with rfl | rfl
  · exact iff_of_true (ofHttps_encrypted rest) fun h => absurd h (by decide)
  · rw [ofHttps_plain_self_iff, forall_prop_of_true rfl]

/-- The plain address beside a signed one differs from it in nothing but the scheme, unless that is
plain already and an `https` comes after it. The first that does loses its last letter. A store signs
encrypted addresses in a region, and under its own address those with the scheme of that. All signed
objects are answered with such pairs. -/
theorem twins_exact {scheme rest : String} (hscheme : scheme ∈ schemes) :
    let kept := scheme = "http://" → ¬ "https".toList <:+: rest.toList
    (ofHttps (scheme ++ rest) = ⟨scheme ++ rest, "http://" ++ rest⟩ ↔ kept) ∧
      (∀ before after : String, scheme = "http://" →
        Text.FirstAt "https".toList before.toList after.toList rest.toList →
        ofHttps (scheme ++ rest) =
          ⟨scheme ++ rest, "http://" ++ (before ++ "http" ++ after)⟩) ∧
      (∀ (c : CloudStore) (signing : Signing) (signed : CloudStore.Signed) (query : String),
        c.presign signing = .ok signed → signed.base ++ query = scheme ++ rest →
        (c.endpoint = none → scheme = "https://") ∧
          ∀ own ∈ schemes, ∀ host : String, c.endpoint = some (own ++ host) →
            (∃ d ∈ host.toList, d ≠ '/') → scheme = own) ∧
      ∀ (s : Service) (ρ : (c : Call) → c.Answer) (bucket image : String) (file : Option String)
        (lifetime : Option Nat) (assets : ImageAssets),
        (s.locate bucket image file lifetime).eval ρ = .ok assets →
        ∀ url ∈ [assets.initrd, assets.kernel, assets.rootfs] ++ assets.file.toList,
          url.https = scheme ++ rest →
          (∃ signing, ρ (.presign signing) = .ok (scheme ++ rest)) ∧
            (url.http = "http://" ++ rest ↔ kept) := by
  intro kept
  refine ⟨ofHttps_self_iff hscheme, ?_, ?_, ?_⟩
  · rintro before after rfl hfirst
    exact ofHttps_plain_firstAt hfirst
  · intro c signing signed query hsigned htext
    rw [CloudStore.base_of_presign hsigned] at htext
    refine ⟨fun hregion => ?_, fun own hown host hendpoint hhost => ?_⟩
    · obtain ⟨rest', hrest⟩ := CloudStore.base_region hregion signing.bucket signing.key
      rw [hrest, String.append_assoc] at htext
      exact (scheme_eq List.mem_cons_self hscheme htext).symm
    · rw [CloudStore.base_endpoint hendpoint hhost, String.append_assoc] at htext
      exact (scheme_eq hown hscheme htext).symm
  · intro s ρ bucket image file lifetime assets hassets url hurl htext
    obtain ⟨signing, hsigned, hfrom⟩ := from_of_locate hassets url hurl
    rw [htext] at hsigned hfrom
    refine ⟨⟨signing, hsigned⟩, ?_⟩
    rw [hfrom, http_eq_iff]
    exact ofHttps_self_iff hscheme

/-- A bucket without an `https` in its name, in a store under a plain address. -/
theorem twins_exact_kept :
    let rest := "minio.local:9000/images/ubuntu/vmlinuz?X-Amz-Expires=900"
    "http://" ∈ schemes ∧ ofHttps ("http://" ++ rest) = ⟨"http://" ++ rest, "http://" ++ rest⟩ := by
  intro rest
  have hscheme : "http://" ∈ schemes := by decide
  have hkept : ¬ "https".toList <:+: rest.toList := by decide +kernel
  exact ⟨hscheme, (twins_exact hscheme).1.mpr fun _ => hkept⟩

/-- A bucket whose name has an `https` in it, in a store under a plain address. The plain address is
that of another bucket. -/
theorem twin_altered :
    let c : CloudStore := ⟨some "http://minio.local:9000", "us-east-1"⟩
    c.presign ⟨"https-images", "ubuntu/vmlinuz", 900000⟩ =
        .ok ⟨"http://minio.local:9000/https-images/ubuntu/vmlinuz", 900⟩ ∧
      ofHttps "http://minio.local:9000/https-images/ubuntu/vmlinuz?X-Amz-Expires=900" =
        ⟨"http://minio.local:9000/https-images/ubuntu/vmlinuz?X-Amz-Expires=900",
          "http://minio.local:9000/http-images/ubuntu/vmlinuz?X-Amz-Expires=900"⟩ := by
  constructor <;> cbv

end SignedUrl
end FleetBoot
