import FleetBoot.Proofs.Plan.Faults
import FleetBoot.Proofs.Service.Operation
import FleetBoot.Proofs.Text.Blank
import Mathlib

/-! Adding an image to the catalog and taking it out again. Up to the last call nothing is changed,
so that an image is added with all that it needs or not at all, and its deletion undoes just that.
-/
namespace FleetBoot

namespace Image

/-- The fields that no image goes without. -/
def requiredFields (i : Image) : List String := [i.name, i.bucket, i.tag, i.type, i.cmdline]

/-- No required field is blank. -/
def Complete (i : Image) : Prop := ∀ text ∈ i.requiredFields, ¬ Text.Blank text

/-- The image without outer blanks, and without a file whose name is blank. -/
def trimmed (i : Image) : Image where
  name := Text.trim i.name
  bucket := Text.trim i.bucket
  tag := Text.trim i.tag
  type := Text.trim i.type
  cmdline := Text.trim i.cmdline
  file := (i.file.map Text.trim).filter (!·.isEmpty)

theorem requiredFields_trimmed (i : Image) :
    i.trimmed.requiredFields = i.requiredFields.map Text.trim := rfl

theorem Complete.trimmed {i : Image} (h : i.Complete) : i.trimmed.Complete := by
  intro text htext
  rw [requiredFields_trimmed] at htext
  obtain ⟨raw, hraw, rfl⟩ := List.mem_map.mp htext
  rw [← Text.trim_isEmpty_iff, Text.trim_trim, Text.trim_isEmpty_iff]
  exact h raw hraw

theorem file_trimmed {i : Image} {file : String} (h : file ∈ i.trimmed.file) :
    (∃ raw ∈ i.file, file = Text.trim raw) ∧ ¬ Text.Blank file := by
  obtain ⟨hmap, hfilled⟩ := Option.filter_eq_some_iff.mp h
  obtain ⟨raw, hraw, rfl⟩ := Option.map_eq_some_iff.mp hmap
  constructor
  · exact ⟨raw, hraw, rfl⟩
  · rw [← Text.trim_isEmpty_iff, Text.trim_trim]
    simpa using hfilled

end Image

namespace World
variable {conditions : Conditions} {w : World}

/-- An image is refused if the catalog has its key, and else it is added. -/
theorem perform_create (w : World) (image : Image) :
    (¬ (∃ i ∈ w.store.images.catalog, i.key = image.key) ∧
        (w.perform (.create image)).1 = .ok () ∧
        w.store.AddsEntry (k := .image) (w.perform (.create image)).2.store image) ∨
      (∃ i ∈ w.store.images.catalog, i.key = image.key) ∧
        w.perform (.create image) = (.error (.occupied (.catalog .image)), w) := by
  rcases w.store.register_cases (k := .image) image with ⟨htaken, hrefused⟩ | ⟨hfree, t, hok, hadds⟩
  · simp only [perform, hrefused, commit]
    exact .inr ⟨htaken, trivial⟩
  · simp only [perform, hok, commit]
    exact .inl ⟨hfree, trivial, hadds⟩

end World

namespace Service
variable {s : Service} {conditions : Conditions} {d : Deadline} {w : World} {image : Image}

theorem require_cases (field value : String) :
    ¬ Text.Blank value ∧ require field value = .ok (Text.trim value) ∨
      Text.Blank value ∧ require field value = .error (.missingField field) := by
  unfold require
  rw [← Text.trim_isEmpty_iff]
  by_cases h : (Text.trim value).isEmpty = true
  · exact .inr ⟨h, if_pos h⟩
  · exact .inl ⟨h, if_neg h⟩

theorem requireImage_cases (image : Image) :
    image.Complete ∧ requireImage image = .ok image.trimmed ∨
      ¬ image.Complete ∧ ∃ field, requireImage image = .error (.missingField field) := by
  have hblank {text : String} (hmem : text ∈ image.requiredFields) (h : Text.Blank text) :
      ¬ image.Complete := fun hcomplete => hcomplete text hmem h
  unfold requireImage
  rcases require_cases "image_name" image.name with ⟨hname, h⟩ | ⟨hname, h⟩ <;> rw [h]
  · rcases require_cases "image_bucket" image.bucket with ⟨hbucket, h⟩ | ⟨hbucket, h⟩ <;> rw [h]
    · rcases require_cases "image_tag" image.tag with ⟨htag, h⟩ | ⟨htag, h⟩ <;> rw [h]
      · rcases require_cases "image_type" image.type with ⟨htype, h⟩ | ⟨htype, h⟩ <;> rw [h]
        · rcases require_cases "image_cmdline" image.cmdline with ⟨hcmdline, h⟩ | ⟨hcmdline, h⟩ <;>
            rw [h]
          · left
            constructor
            · simp [Image.Complete, Image.requiredFields, *]
            · rfl
          · exact .inr ⟨hblank (by simp [Image.requiredFields]) hcmdline, _, rfl⟩
        · exact .inr ⟨hblank (by simp [Image.requiredFields]) htype, _, rfl⟩
      · exact .inr ⟨hblank (by simp [Image.requiredFields]) htag, _, rfl⟩
    · exact .inr ⟨hblank (by simp [Image.requiredFields]) hbucket, _, rfl⟩
  · exact .inr ⟨hblank (by simp [Image.requiredFields]) hname, _, rfl⟩

/-- What is said of an image when its insert is answered. -/
def created (image : Image) (assets : ImageAssets) :
    Except StoreError Unit → Except ServiceError SignedImage
  | .ok () => .ok ⟨image, assets⟩
  | .error e => .error (if e.isUnique then .imageExists image.key else .storage e)

theorem createImage_of_complete {required : Image} (h : requireImage image = .ok required) :
    s.createImage image = (s.imageAssets required).bind fun assets =>
      .call (.create required) fun answer => .ofExcept (created required assets answer) := by
  rw [createImage, h]
  apply congrArg (s.imageAssets required).bind
  funext assets
  apply congrArg (Plan.call (.create required))
  funext answer
  rcases answer with e | ⟨⟩ <;> rfl

/-- All that a creation can come to. Until the insert is answered nothing has changed. -/
theorem run_createImage (s : Service) (conditions : Conditions) (d : Deadline) (image : Image)
    (hw : w.landings = []) :
    let ρ := w.answers conditions
    let fits := image.Complete ∧ s.Signs ρ (k := .image) image.trimmed
    let ended := (s.createImage image).run conditions d w
    ∃ v : World, v.Alike w ∧
      (ended.1 = none ∧ ended.2 = v ∨
        ¬ fits ∧ (∃ e, ended.1 = some (.error e) ∧ ∀ key, e ≠ .imageExists key) ∧ ended.2 = v ∨
        fits ∧
          ended.1 = some (created image.trimmed (s.assets ρ image.trimmed)
            (v.answer conditions (.create image.trimmed)).1) ∧
          ended.2 = (v.answer conditions (.create image.trimmed)).2) := by
  intro ρ fits ended
  rcases requireImage_cases image with ⟨hcomplete, hrequire⟩ | ⟨hmissing, field, hrequire⟩
  · obtain ⟨v, hv, hrun⟩ := ((only_imageAssets s image.trimmed).mono fun _ =>
      Call.OnObjects.reads).run_cases hw conditions d
    have hended : ended = ((s.imageAssets image.trimmed).bind fun assets =>
        .call (.create image.trimmed) fun answer =>
          .ofExcept (created image.trimmed assets answer)).run conditions d w := by
      rw [← createImage_of_complete hrequire]
    rw [Plan.run_bind] at hended
    rcases hrun with hrun | hrun
    · rw [hrun] at hended
      exact ⟨v, hv, .inl ⟨by rw [hended], by rw [hended]⟩⟩
    · by_cases hsigns : s.Signs ρ (k := .image) image.trimmed
      · rw [hrun, eval_imageAssets_ok hsigns] at hended
        dsimp only at hended
        rw [Plan.run_call] at hended
        dsimp only at hended
        have ht := World.elapse_alike (hv.landings.trans hw)
          (d.wait v.now (conditions.delay (.create image.trimmed))).time
        refine ⟨_, ht.trans hv, ?_⟩
        split at hended
        · right
          right
          rw [hended, Plan.run_ofExcept]
          exact ⟨⟨hcomplete, hsigns⟩, rfl, rfl⟩
        · left
          rw [hended]
          exact ⟨rfl, rfl⟩
      · obtain ⟨cause, hcause⟩ := eval_imageAssets_error hsigns
        rw [hrun, hcause] at hended
        refine ⟨v, hv, .inr (.inl ⟨fun h => hsigns h.2, ⟨.objectStore cause, ?_, ?_⟩, ?_⟩)⟩
        · rw [hended]
        · intro key h
          cases h
        · rw [hended]
  · have hended : ended = (some (.error (.missingField field)), w) := by
      simp only [ended, createImage, hrequire]
      rfl
    refine ⟨w, .refl w, .inr (.inl ⟨fun h => hmissing h.1, ⟨.missingField field, ?_, ?_⟩, ?_⟩)⟩
    · rw [hended]
    · intro key h
      cases h
    · rw [hended]

theorem created_eq_ok {assets : ImageAssets} {answer : Except StoreError Unit}
    {signed : SignedImage} (h : created image assets answer = .ok signed) : answer = .ok () ∧ signed.image = image := by
  rcases answer with e | ⟨⟩
  · cases h
  · cases h
    exact ⟨rfl, rfl⟩

/-- The names of an image that was added, as they were given, name it in a deletion. -/
theorem run_deleteImage {after : Conditions} (hafter : after.Faultless) {before : Store}
    (hcomplete : image.Complete) (hw : w.landings = [])
    (hadds : before.AddsEntry (k := .image) w.store image.trimmed) :
    let undone := (deleteImage image.tag image.type).run after .never w
    undone.1 = some (.ok image.trimmed) ∧ ∀ t, undone.2.Comes t → t = before := by
  intro undone
  have htag : require "image_tag" image.tag = .ok (Text.trim image.tag) := by
    rcases require_cases "image_tag" image.tag with ⟨-, h⟩ | ⟨hblank, -⟩
    · exact h
    · exact absurd hblank (hcomplete _ (by simp [Image.requiredFields]))
  have htype : require "image_type" image.type = .ok (Text.trim image.type) := by
    rcases require_cases "image_type" image.type with ⟨-, h⟩ | ⟨hblank, -⟩
    · exact h
    · exact absurd hblank (hcomplete _ (by simp [Image.requiredFields]))
  let t := w.elapse (w.now + after.delay (.delete image.trimmed.key))
  have ht : t.Alike w := World.elapse_alike hw _
  have hremove : t.store.remove .image image.trimmed.key = (some image.trimmed, before) := by
    rw [ht.store]
    exact hadds.remove
  have hrun : undone = (some (.ok image.trimmed), { t with store := before }) := by
    simp only [undone, deleteImage, htag, htype]
    change (Plan.call (.delete image.trimmed.key) _).run after .never w = _
    rw [Plan.run_call, Deadline.wait_never]
    dsimp only
    rw [World.answer_eq_perform hafter id]
    simp only [World.perform]
    rw [hremove]
    rfl
  rw [hrun]
  constructor
  · rfl
  · intro u hu
    have hlandings : World.landings { t with store := before } = [] := ht.landings.trans hw
    exact World.comes_of_landings hlandings hu

/-- An image is added exactly if the database takes its insert. -/
theorem answer_create (hc : conditions.Honest) (image : Image) :
    let answered := w.answer conditions (.create image)
    answered.1 = .ok () ∧ w.store.AddsEntry (k := .image) answered.2.store image ∨
      ∃ e, answered.1 = .error e ∧ answered.2.store = w.store := by
  intro answered
  cases hresult : answered.1 with
  | ok done =>
    left
    have hperform : answered = w.perform (.create image) := World.answer_of_ok hc id hresult
    rcases w.perform_create image with ⟨-, -, hadds⟩ | ⟨-, hrefused⟩
    · rw [hperform]
      exact ⟨rfl, hadds⟩
    · rw [hperform, hrefused] at hresult
      cases hresult
  | error e =>
    right
    rcases World.store_answer conditions w (.create image) with hsame | ⟨hchanged, -⟩
    · exact ⟨e, rfl, hsame⟩
    · cases hresult.symm.trans hchanged

/-- Where no call to the database fails, an image is refused only for its key. -/
theorem created_answer (hc : conditions.Faultless) (image : Image) (assets : ImageAssets) :
    let result := created image assets (w.answer conditions (.create image)).1
    (¬ (∃ i ∈ w.store.images.catalog, i.key = image.key) ∧ result = .ok ⟨image, assets⟩) ∨
      (∃ i ∈ w.store.images.catalog, i.key = image.key) ∧
        result = .error (.imageExists image.key) := by
  intro result
  have hresult : result = created image assets (w.perform (.create image)).1 := by
    rw [← World.answer_eq_perform hc id]
  rw [hresult]
  rcases w.perform_create image with ⟨hfree, hok, -⟩ | ⟨htaken, hrefused⟩
  · rw [hok]
    exact .inl ⟨hfree, rfl⟩
  · rw [hrefused]
    exact .inr ⟨htaken, rfl⟩

section Creation
variable {ended : Option (Except ServiceError SignedImage) × World} {signed : SignedImage}

/-- A creation that does not succeed changes nothing, now or later. -/
theorem createImage_failed (hc : conditions.Honest) (hw : w.landings = [])
    (hrun : (s.createImage image).run conditions d w = ended)
    (hfailed : ∀ signed, ended.1 ≠ some (.ok signed)) {t : Store} (ht : ended.2.Comes t) :
    t = w.store := by
  obtain ⟨v, hv, hended⟩ := run_createImage s conditions d image hw
  rw [hrun] at hended
  have hlandings : v.landings = [] := hv.landings.trans hw
  rcases hended with ⟨-, hworld⟩ | ⟨-, -, hworld⟩ | ⟨-, hresult, hworld⟩
  · rw [hworld] at ht
    exact (World.comes_of_landings hlandings ht).trans hv.store
  · rw [hworld] at ht
    exact (World.comes_of_landings hlandings ht).trans hv.store
  · rw [hworld] at ht
    rcases answer_create hc image.trimmed (w := v) with ⟨hok, -⟩ | ⟨e, -, hsame⟩
    · rw [hok] at hresult
      exact absurd hresult (hfailed _)
    · have hcome := World.comes_of_landings
        ((World.landings_answer conditions v _).trans hlandings) ht
      exact hcome.trans (hsame.trans hv.store)

/-- Where the database fails no call, a creation that is not given up comes to what its image
deserves. -/
theorem createImage_faultless (hc : conditions.Faultless) (hw : w.landings = [])
    (hrun : (s.createImage image).run conditions d w = ended) (hend : ended.1 ≠ none) :
    let fits := image.Complete ∧ s.Signs (w.answers conditions) (k := .image) image.trimmed
    let taken := ∃ i ∈ w.store.images.catalog, i.key = image.trimmed.key
    ((∃ signed, ended.1 = some (.ok signed)) ↔ fits ∧ ¬ taken) ∧
      (ended.1 = some (.error (.imageExists image.trimmed.key)) ↔ fits ∧ taken) := by
  intro fits taken
  obtain ⟨v, hv, hended⟩ := run_createImage s conditions d image hw
  rw [hrun] at hended
  rcases hended with ⟨hnone, -⟩ | ⟨hunfit, ⟨e, hresult, he⟩, -⟩ | ⟨hfits, hresult, -⟩
  · exact absurd hnone hend
  · rw [hresult]
    constructor
    · exact ⟨nofun, fun h => absurd h.1 hunfit⟩
    · constructor
      · intro heq
        cases heq
        exact absurd rfl (he _)
      · exact fun h => absurd h.1 hunfit
  · rw [hresult]
    have htaken : (∃ i ∈ v.store.images.catalog, i.key = image.trimmed.key) ↔ taken := by
      rw [hv.store]
    rcases created_answer hc (w := v) image.trimmed (s.assets (w.answers conditions) image.trimmed)
      with ⟨hfree, hcreated⟩ | ⟨htakes, hcreated⟩
    · rw [hcreated]
      rw [htaken] at hfree
      exact ⟨⟨fun _ => ⟨hfits, hfree⟩, fun _ => ⟨_, rfl⟩⟩, nofun, fun h => absurd h.2 hfree⟩
    · rw [hcreated]
      rw [htaken] at htakes
      exact ⟨⟨nofun, fun h => absurd htakes h.2⟩, fun _ => ⟨hfits, htakes⟩, fun _ => rfl⟩

/-- A creation that succeeds adds the image without outer blanks, and nothing else. -/
theorem createImage_added (hc : conditions.Honest) (hw : w.landings = [])
    (hrun : (s.createImage image).run conditions d w = ended)
    (hok : ended.1 = some (.ok signed)) :
    image.Complete ∧ signed.image = image.trimmed ∧ ended.2.landings = [] ∧
      w.store.AddsEntry (k := .image) ended.2.store image.trimmed := by
  obtain ⟨v, hv, hended⟩ := run_createImage s conditions d image hw
  rw [hrun] at hended
  rcases hended with ⟨hnone, -⟩ | ⟨-, ⟨e, hresult, -⟩, -⟩ | ⟨hfits, hresult, hworld⟩
  · cases hnone.symm.trans hok
  · cases hresult.symm.trans hok
  · obtain ⟨hanswer, himage⟩ := created_eq_ok (Option.some.inj (hresult.symm.trans hok))
    rcases answer_create hc image.trimmed (w := v) with ⟨-, hadds⟩ | ⟨e, herror, -⟩
    · rw [hworld, ← hv.store]
      refine ⟨hfits.1, himage, ?_, hadds⟩
      rw [World.landings_answer, hv.landings, hw]
    · cases hanswer.symm.trans herror

end Creation

/-- An image is added or nothing is changed. Where the database fails no call and the deadline does
not strike, the image is added exactly if no required field is blank, all its objects can be signed
and its key is free; it is refused as already there if only the last does not hold. The entry is the
image without outer blanks, and its deletion by the names as they were given returns it and restores
the database. -/
theorem createImage_exact (s : Service) (conditions : Conditions) (d : Deadline) (w : World)
    (image : Image) (hc : conditions.Honest) (hw : w.landings = []) :
    let fits := image.Complete ∧ s.Signs (w.answers conditions) (k := .image) image.trimmed
    let taken := ∃ i ∈ w.store.images.catalog, i.key = image.trimmed.key
    let ended := (s.createImage image).run conditions d w
    ((∀ signed, ended.1 ≠ some (.ok signed)) → ∀ t, ended.2.Comes t → t = w.store) ∧
    (conditions.Faultless → ended.1 ≠ none →
      ((∃ signed, ended.1 = some (.ok signed)) ↔ fits ∧ ¬ taken) ∧
      (ended.1 = some (.error (.imageExists image.trimmed.key)) ↔ fits ∧ taken)) ∧
    (d = .never → ended.1 ≠ none) ∧
    ∀ signed, ended.1 = some (.ok signed) →
      (∀ t, ended.2.Comes t → w.store.AddsEntry (k := .image) t signed.image) ∧
      signed.image.requiredFields = image.requiredFields.map Text.trim ∧ signed.image.Complete ∧
      (∀ file ∈ signed.image.file, (∃ raw ∈ image.file, file = Text.trim raw) ∧
        ¬ Text.Blank file) ∧
      ∀ after : Conditions, after.Faultless →
        let undone := (deleteImage image.tag image.type).run after .never ended.2
        undone.1 = some (.ok signed.image) ∧ ∀ t, undone.2.Comes t → t = w.store := by
  intro fits taken ended
  have hrun : (s.createImage image).run conditions d w = ended := rfl
  have hnever : d = .never → ended.1 ≠ none := by
    rintro rfl
    exact Plan.run_never _ conditions w
  clear_value ended
  refine ⟨fun hfailed t ht => createImage_failed hc hw hrun hfailed ht,
    fun hfaultless hend => createImage_faultless hfaultless hw hrun hend, hnever, ?_⟩
  intro signed hok
  obtain ⟨hcomplete, himage, hlandings, hadds⟩ := createImage_added hc hw hrun hok
  rw [himage]
  refine ⟨fun t ht => ?_, image.requiredFields_trimmed, hcomplete.trimmed,
    fun file hfile => Image.file_trimmed hfile, fun after hafter => ?_⟩
  · rw [World.comes_of_landings hlandings ht]
    exact hadds
  · exact run_deleteImage hafter hcomplete hlandings hadds

/-- An image with blanks around its tag and a blank file, added to the empty database. -/
theorem createImage_exact_blanks :
    let s := Service.ofConfig {}
    let image : Image := ⟨"debian-12", "images", "\tdebian ", " amd64", "quiet", some "  "⟩
    let ended := (s.createImage image).run {} .never {}
    Conditions.Honest {} ∧ image.Complete ∧
      s.Signs (World.answers {} {}) (k := .image) image.trimmed ∧
      ∃ signed : SignedImage, ended.1 = some (.ok signed) ∧
        signed.image.requiredFields = ["debian-12", "images", "debian", "amd64", "quiet"] ∧
        Store.AddsEntry (k := .image) {} ended.2.store signed.image ∧
        ((deleteImage image.tag image.type).run {} .never ended.2).2.store = {} := by
  intro s image ended
  have hfaultless : Conditions.Faultless {} := fun _ _ => rfl
  have hcomplete : image.Complete := by
    change ∀ text ∈ ["debian-12", "images", "\tdebian ", " amd64", "quiet"], ¬ Text.Blank text
    decide
  have hsigns : s.Signs (World.answers {} {}) (k := .image) image.trimmed := fun _ _ => ⟨_, rfl⟩
  have hexact := createImage_exact s {} .never {} image hfaultless.honest rfl
  have hended : (s.createImage image).run {} .never {} = ended := rfl
  simp only [hended] at hexact
  clear_value ended
  obtain ⟨-, hends, hnever, hadded⟩ := hexact
  have hfree : ¬ ∃ i ∈ (World.store {}).images.catalog, i.key = image.trimmed.key := by
    rintro ⟨i, hi, -⟩
    exact absurd hi List.not_mem_nil
  obtain ⟨hsucceeds, -⟩ := hends hfaultless (hnever trivial)
  obtain ⟨signed, hok⟩ := hsucceeds.mpr ⟨⟨hcomplete, hsigns⟩, hfree⟩
  obtain ⟨hadds, hfields, -, -, hundo⟩ := hadded signed hok
  refine ⟨hfaultless.honest, hcomplete, hsigns, signed, hok, ?_, hadds _ ended.2.comes_store, ?_⟩
  · rw [hfields]
    subst image
    cbv
  · exact (hundo {} hfaultless).2 _ (World.comes_store _)

end Service
end FleetBoot
