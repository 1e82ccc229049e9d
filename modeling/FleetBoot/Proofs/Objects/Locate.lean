import FleetBoot.Plan.Run
import FleetBoot.Service.Locator
import FleetBoot.Proofs.Objects.Twin
import Mathlib

/-! Locating the objects of an image. They are signed one after the other, up to the first that the
store refuses. -/
namespace FleetBoot

namespace ObjectStore
variable {o : ObjectStore} {c : Signing}

/-- The store after these signings were asked for. -/
def noting (o : ObjectStore) (calls : List Signing) : ObjectStore :=
  { o with presigned := o.presigned ++ calls }

/-- The store fails the key of the signing. -/
def Refuses (o : ObjectStore) (c : Signing) : Prop := c.key ∈ o.failing

/-- How the store refuses. -/
def refusal (c : Signing) : AssetError := .presign c.bucket c.key "injected failure"

/-- An address without its scheme. -/
def place (c : Signing) : String :=
  c.bucket ++ ".objects.local/" ++ c.key ++ "?ttl=" ++ String.ofList (Text.decimal c.seconds)

/-- The two addresses of a signed object. -/
def signed (c : Signing) : SignedUrl := ⟨"https://" ++ place c, "http://" ++ place c⟩

theorem ofHttps_address (c : Signing) : SignedUrl.ofHttps (address c) = signed c := by
  have haddress : address c = "https://" ++ place c := by
    simp only [address, place, String.append_assoc]
  rw [haddress, SignedUrl.ofHttps_encrypted]
  rfl

theorem noting_nil (o : ObjectStore) : o.noting [] = o := by
  simp [noting]

theorem noting_noting (o : ObjectStore) (calls calls' : List Signing) :
    (o.noting calls).noting calls' = o.noting (calls ++ calls') := by
  simp [noting]

theorem sign_of_refuses (h : o.Refuses c) : o.sign c = .error (refusal c) := by
  have hkey : c.key ∈ o.failing := h
  simp [sign, refusal, hkey]

theorem sign_of_not_refuses (h : ¬ o.Refuses c) : o.sign c = .ok (address c) := by
  have hkey : c.key ∉ o.failing := h
  simp [sign, hkey]

end ObjectStore

open ObjectStore (refusal)

/-- Signings that are asked for one after the other, until one is refused: the result, and what was
asked for. -/
inductive InTurn {α : Type} (Refused : Signing → Prop) (a : α) :
    List Signing → Except AssetError α → List Signing → Prop where
  | done : InTurn Refused a [] (.ok a) []
  | refused {c : Signing} {rest : List Signing} (h : Refused c) :
      InTurn Refused a (c :: rest) (.error (refusal c)) [c]
  | signed {c : Signing} {rest asked : List Signing} {result : Except AssetError α}
      (h : ¬ Refused c) (hrest : InTurn Refused a rest result asked) :
      InTurn Refused a (c :: rest) result (c :: asked)

namespace InTurn
variable {α : Type} {Refused : Signing → Prop} {a : α} {calls asked : List Signing}
  {result : Except AssetError α}

/-- All is signed, or all up to the first that is refused. -/
theorem outcome (h : InTurn Refused a calls result asked) :
    ((∀ c ∈ calls, ¬ Refused c) ∧ result = .ok a ∧ asked = calls) ∨
      ∃ before c after, calls = before ++ c :: after ∧ (∀ b ∈ before, ¬ Refused b) ∧ Refused c ∧
        result = .error (refusal c) ∧ asked = before ++ [c] := by
  induction h with
  | done => simp
  | @refused c rest hc => exact .inr ⟨[], c, rest, by simp [hc]⟩
  | @signed c rest asked result hc _ ih =>
    rcases ih with ⟨hall, hresult, rfl⟩ | ⟨before, d, after, rfl, hbefore, hd, hresult, rfl⟩
    · exact .inl ⟨List.forall_mem_cons.mpr ⟨hc, hall⟩, hresult, rfl⟩
    · exact .inr ⟨c :: before, d, after, rfl, List.forall_mem_cons.mpr ⟨hc, hbefore⟩, hd, hresult,
        rfl⟩

end InTurn

namespace Plan
variable {α : Type} {a : α} {c : Signing} {calls : List Signing}

/-- The plan asks for these signings in turn, and gives `a` if none is refused. -/
def SignsInTurn (p : Plan AssetError α) (calls : List Signing) (a : α) : Prop :=
  ∀ (delay : Call → Nat) (w : World), ∃ result asked,
    InTurn w.objects.Refuses a calls result asked ∧
      (p.run { delay := delay } .never w).1 = some result ∧
      (p.run { delay := delay } .never w).2.objects = w.objects.noting asked

theorem signsInTurn_done (a : α) : (Plan.done a).SignsInTurn [] a :=
  fun _ _ => ⟨.ok a, [], .done, rfl, (ObjectStore.noting_nil _).symm⟩

theorem SignsInTurn.sign {f : SignedUrl → Plan AssetError α}
    (h : (f (ObjectStore.signed c)).SignsInTurn calls a) :
    ((Service.sign c).bind f).SignsInTurn (c :: calls) a := by
  intro delay w
  -- the world after the call, which is asked of the store whether it refuses or not
  let v : World :=
    { w.elapse (w.now + delay (.presign c)) with objects := w.objects.noting [c] }
  have hrun : ((Service.sign c).bind f).run { delay := delay } .never w =
      (((ofExcept (w.objects.sign c)).bind fun url => .done (.ofHttps url)).bind f).run
        { delay := delay } .never v := rfl
  rw [hrun]
  by_cases hc : w.objects.Refuses c
  · rw [ObjectStore.sign_of_refuses hc]
    exact ⟨.error (refusal c), [c], .refused hc, rfl, rfl⟩
  · have hgo : ((ofExcept (w.objects.sign c)).bind fun url => .done (.ofHttps url)).bind f =
        f (ObjectStore.signed c) := by
      rw [ObjectStore.sign_of_not_refuses hc, ← ObjectStore.ofHttps_address]
      rfl
    obtain ⟨result, asked, hturn, hresult, hobjects⟩ := h delay v
    rw [hgo]
    refine ⟨result, c :: asked, .signed hc hturn, hresult, ?_⟩
    rw [hobjects, show v.objects = w.objects.noting [c] from rfl, ObjectStore.noting_noting]
    rfl

/-- All that a plan asks for is signed, or it fails with the first that is refused. -/
theorem SignsInTurn.outcome {p : Plan AssetError α} (h : p.SignsInTurn calls a)
    (delay : Call → Nat) (w : World) :
    let ended := p.run { delay := delay } .never w
    ((∀ c ∈ calls, ¬ w.objects.Refuses c) ∧ ended.1 = some (.ok a) ∧
        ended.2.objects = w.objects.noting calls) ∨
      ∃ before c after, calls = before ++ c :: after ∧ (∀ b ∈ before, ¬ w.objects.Refuses b) ∧
        w.objects.Refuses c ∧ ended.1 = some (.error (refusal c)) ∧
          ended.2.objects = w.objects.noting (before ++ [c]) := by
  intro ended
  obtain ⟨result, asked, hturn, hresult, hobjects⟩ := h delay w
  rcases hturn.outcome with ⟨hall, rfl, rfl⟩ | ⟨before, c, after, hcalls, hbefore, hc, rfl, rfl⟩
  · exact .inl ⟨hall, hresult, hobjects⟩
  · exact .inr ⟨before, c, after, hcalls, hbefore, hc, hresult, hobjects⟩

end Plan

namespace Service

/-- The three objects that every image has are asked for, and then the file if it has a name. -/
theorem signsInTurn_locate (s : Service) (bucket image : String) (file : Option String)
    (lifetime : Option Nat) :
    let signing (object : String) : Signing :=
      ⟨s.bucketOr bucket, objectKey (s.imageOr image) object, lifetime.getD s.lifetime⟩
    let url (object : String) := ObjectStore.signed (signing object)
    (s.locate bucket image file lifetime).SignsInTurn
      ((["initrd.img", "vmlinuz", "rootfs.cpio.gz"] ++ (file.filter (!·.isEmpty)).toList).map
        signing)
      ⟨url "initrd.img", url "vmlinuz", url "rootfs.cpio.gz",
        (file.filter (!·.isEmpty)).map url⟩ := by
  intro signing url
  apply Plan.SignsInTurn.sign
  apply Plan.SignsInTurn.sign
  apply Plan.SignsInTurn.sign
  cases file.filter (!·.isEmpty) with
  | none => exact Plan.signsInTurn_done _
  | some name => exact Plan.SignsInTurn.sign (Plan.signsInTurn_done _)

/-- Where the objects of an image lie: under its name without the slashes that this ends in, and so
for the default image. -/
theorem objectKey_imageOr (s : Service) (image object : String) :
    let folder := (if image = "" then s.defaults.image else image).toList.rdropWhile (· == '/')
    objectKey (s.imageOr image) object = String.ofList folder ++ "/" ++ object := by
  simp only [objectKey, imageOr, String.isEmpty_iff]
  rfl

/-- Locating an image gives all its objects or none. They are signed once each and in this order,
up to the first that the store refuses. The error names that one, and the store has noted the
signings up to it, all in one bucket and for one lifetime. -/
theorem locate_exact (s : Service) (delay : Call → Nat) (w : World) (bucket image : String)
    (file : Option String) (lifetime : Option Nat) :
    let folder := (if image = "" then s.defaults.image else image).toList.rdropWhile (· == '/')
    let signing (object : String) : Signing :=
      ⟨if bucket = "" then s.defaults.bucket else bucket,
        String.ofList folder ++ "/" ++ object, lifetime.getD s.lifetime⟩
    let extra := file.filter (· ≠ "")
    let signings :=
      (["initrd.img", "vmlinuz", "rootfs.cpio.gz"] ++ extra.toList).map signing
    let url (object : String) := ObjectStore.signed (signing object)
    let ended := (s.locate bucket image file lifetime).run { delay := delay } .never w
    ((∃ assets, ended.1 = some (.ok assets)) ↔ ∀ c ∈ signings, c.key ∉ w.objects.failing) ∧
      (∀ assets, ended.1 = some (.ok assets) →
        assets = ⟨url "initrd.img", url "vmlinuz", url "rootfs.cpio.gz", extra.map url⟩ ∧
          ended.2.objects = w.objects.noting signings) ∧
      ((∃ c ∈ signings, c.key ∈ w.objects.failing) →
        ∃ before c after, signings = before ++ c :: after ∧
          (∀ b ∈ before, b.key ∉ w.objects.failing) ∧ c.key ∈ w.objects.failing ∧
          ended.1 = some (.error (refusal c)) ∧
          ended.2.objects = w.objects.noting (before ++ [c])) := by
  intro folder signing extra signings url ended
  have hbucket : s.bucketOr bucket = if bucket = "" then s.defaults.bucket else bucket := by
    simp only [bucketOr, String.isEmpty_iff]
  have hextra : file.filter (!·.isEmpty) = extra := by
    cases file <;> simp [extra, Option.filter]
  have hturn : (s.locate bucket image file lifetime).SignsInTurn signings
      ⟨url "initrd.img", url "vmlinuz", url "rootfs.cpio.gz", extra.map url⟩ := by
    have h := s.signsInTurn_locate bucket image file lifetime
    simp only [hbucket, objectKey_imageOr, hextra] at h
    exact h
  rcases hturn.outcome delay w with ⟨hall, hresult, hobjects⟩ |
    ⟨before, c, after, hcalls, hbefore, hc, hresult, hobjects⟩
  · refine ⟨⟨fun _ => hall, fun _ => ⟨_, hresult⟩⟩, fun assets hassets => ?_, ?_⟩
    · exact ⟨Except.ok.inj (Option.some.inj (hassets.symm.trans hresult)), hobjects⟩
    · rintro ⟨c, hmem, hc⟩
      exact (hall c hmem hc).elim
  · have hmem : c ∈ signings := by simp [hcalls]
    have hfails : ∀ assets, ended.1 ≠ some (.ok assets) := by
      intro assets hassets
      cases hassets.symm.trans hresult
    refine ⟨⟨fun ⟨assets, h⟩ => (hfails assets h).elim, fun hall => (hall c hmem hc).elim⟩,
      fun assets h => (hfails assets h).elim, fun _ => ?_⟩
    exact ⟨before, c, after, hcalls, hbefore, hc, hresult, hobjects⟩

end Service
end FleetBoot
