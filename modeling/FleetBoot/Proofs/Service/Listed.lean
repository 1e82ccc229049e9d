import FleetBoot.Proofs.Service.Assigned
import FleetBoot.Proofs.Store.Registration

/-! What the service lists and what it takes. A key is trimmed before it is looked for, but not when
it goes into the catalog, so that a listed key can be used exactly if trimming leaves it as it is. -/
namespace FleetBoot

namespace Kind

/-- No field of the key is blank, and none has outer blanks. -/
def Tidy {k : Kind} (key : k.Key) : Prop := blankField? key = none ∧ trimKey key = key

end Kind

namespace Service
variable {k : Kind} {w : World} {conditions : Conditions} {raw mac : String}

/-- The address is given the entry with this key, and has a row for it. -/
def Assigns (s t : Store) (mac : String) (key : k.Key)
    (x : Option (Except ServiceError k.Assigned)) : Prop :=
  ∃ e, (s.shelf k).lookup? key = some e ∧ x = some (.ok (Kind.assigned mac e)) ∧
    (t.shelf k).row? mac = some ⟨mac, key⟩

/-- The image with this key is taken out of the catalog, and nothing else. -/
def Deletes (s t : Store) (key : ImageKey) (x : Option (Except ServiceError Image)) : Prop :=
  ∃ image : Image, image.key = key ∧ x = some (.ok image) ∧ s.RemovesEntry (k := .image) t image

/-- The operation is refused because of a blank field, or as not there, and changes nothing. -/
def Refuses {α : Type} (s t : Store) (x : Option (Except ServiceError α)) (absent : ServiceError) :
    Prop :=
  ((∃ field, x = some (.error (.missingField field))) ∨ x = some (.error absent)) ∧ t = s

section Assignments
variable {key : k.Key} {ended : Option (Except ServiceError k.Assigned) × World}

/-- All that becomes of an assignment to an address without faults. -/
theorem assign_cases (s : Service) (hc : conditions.Faultless) (hw : w.landings = [])
    (hraw : Identity.normalize raw = .ok (.mac mac))
    (hrun : ((Operation.assign k raw key).plan s).run conditions .never w = ended) :
    let shelf := w.store.shelf k
    (∃ field, Kind.blankField? key = some field ∧
        ended.1 = some (.error (.missingField field)) ∧ ended.2.store = w.store) ∨
      (Kind.blankField? key = none ∧ shelf.lookup? (Kind.trimKey key) = none ∧
        ended.1 = some (.error (.unavailable k (Kind.trimKey key) shelf.available)) ∧
        ended.2.store = w.store) ∨
      ∃ e, Kind.blankField? key = none ∧ shelf.lookup? (Kind.trimKey key) = some e ∧
        ended.1 = some (.ok (Kind.assigned mac e)) ∧
        Gives w.store ended.2.store (.mac mac) (⟨mac, Kind.trimKey key⟩ : Assignment k) := by
  intro shelf
  obtain ⟨v, hv, -, hpick⟩ := Plan.run_reads_bind (d := .never) (only_pick key) (.refl conditions)
    hw (Deadline.passed_never _) (give (.mac mac))
  rw [← plan_assign_eq s hraw, hrun, eval_pick hc] at hpick
  cases hblank : Kind.blankField? key with
  | some field =>
    rw [hblank] at hpick
    subst hpick
    exact .inl ⟨field, rfl, rfl, hv.store⟩
  | none =>
    cases he : shelf.lookup? (Kind.trimKey key) with
    | none =>
      rw [hblank, he] at hpick
      subst hpick
      exact .inr (.inl ⟨rfl, rfl, rfl, hv.store⟩)
    | some e =>
      rw [hblank, he] at hpick
      let row : Assignment k := ⟨mac, Kind.trimKey key⟩
      obtain ⟨u, -, hwrite⟩ := run_write_cases hc (hv.landings.trans hw) (.mac mac) row
      -- only a row that a token named can be gone
      obtain ⟨hu, hgives⟩ := hwrite.resolve_right fun hgone => nomatch hgone.1
      have hgive : ended = (some (.ok (Kind.assigned mac e)), u) := by
        rw [hpick]
        change ((write (.mac mac) row).bind fun _ => .done (Kind.assigned mac e)).run conditions
          .never v = _
        rw [Plan.run_bind, hu]
        rfl
      rw [hgive]
      exact .inr (.inr ⟨e, rfl, rfl, rfl, hv.store ▸ hgives⟩)

/-- A key that is looked for as it stands is assigned if it is listed. Of another key that which it
is looked for as is assigned, or none. -/
theorem assign_listed (s : Service) (hc : conditions.Faultless) (hw : w.landings = [])
    (hkey : key ∈ (w.store.shelf k).available)
    (hraw : Identity.normalize raw = .ok (.mac mac))
    (hrun : ((Operation.assign k raw key).plan s).run conditions .never w = ended) :
    (Assigns w.store ended.2.store mac key ended.1 ↔ Kind.Tidy key) ∧
      (Assigns w.store ended.2.store mac (Kind.trimKey key) ended.1 ∨
        Refuses w.store ended.2.store ended.1
          (.unavailable k (Kind.trimKey key) (w.store.shelf k).available)) := by
  have hrefused (e : ServiceError) (he : ended.1 = some (.error e)) :
      ¬ Assigns w.store ended.2.store mac key ended.1 := by
    rintro ⟨e', -, hok, -⟩
    cases he.symm.trans hok
  rcases assign_cases s hc hw hraw hrun with
    ⟨field, hblank, hresult, hstore⟩ | ⟨-, hnone, hresult, hstore⟩ |
    ⟨e, hblank, he, hresult, hgives⟩
  · refine ⟨iff_of_false (hrefused _ hresult) ?_, .inr ⟨.inl ⟨field, hresult⟩, hstore⟩⟩
    rintro ⟨hfilled, -⟩
    cases hblank.symm.trans hfilled
  · refine ⟨iff_of_false (hrefused _ hresult) ?_, .inr ⟨.inr hresult, hstore⟩⟩
    rintro ⟨-, htrim⟩
    obtain ⟨e, he⟩ := Shelf.mem_available.mp hkey
    rw [htrim] at hnone
    cases hnone.symm.trans he
  · have hassigns : Assigns w.store ended.2.store mac (Kind.trimKey key) ended.1 :=
      ⟨e, he, hresult, hgives.row?⟩
    refine ⟨⟨?_, fun htidy => htidy.2 ▸ hassigns⟩, .inl hassigns⟩
    rintro ⟨-, -, -, hrow⟩
    have hsame := hgives.row?.symm.trans hrow
    exact ⟨hblank, congrArg Assignment.key (Option.some.inj hsame)⟩

end Assignments

section Deletions
variable {key : ImageKey} {ended : Option (Except ServiceError Image) × World}

/-- What is left of a deletion when its answer is there. -/
def deleted (key : ImageKey) : Option Image → Plan ServiceError Image
  | some image => .done image
  | none => .fail (.noImage key)

theorem deleteImage_eq (key : ImageKey) :
    deleteImage key.tag key.type =
      match Kind.blankField? (k := .image) key with
      | some field => .fail (.missingField field)
      | none => (Plan.request (.delete (Kind.trimKey (k := .image) key))).bind
          (deleted (Kind.trimKey (k := .image) key)) := by
  simp only [deleteImage, require, Kind.blankField?, Kind.trimKey]
  split
  · rfl
  · split
    · rfl
    · refine congrArg (Plan.request (.delete _)).bind (funext fun answer => ?_)
      cases answer <;> rfl

/-- All that becomes of a deletion without faults. -/
theorem delete_cases (hc : conditions.Faultless) (hw : w.landings = []) {found : ImageKey}
    (hfound : Kind.trimKey (k := .image) key = found)
    (hrun : (deleteImage key.tag key.type).run conditions .never w = ended) :
    (∃ field, Kind.blankField? (k := .image) key = some field ∧
        ended.1 = some (.error (.missingField field)) ∧ ended.2.store = w.store) ∨
      (Kind.blankField? (k := .image) key = none ∧
        w.store.images.lookup? found = none ∧
        ended.1 = some (.error (.noImage found)) ∧ ended.2.store = w.store) ∨
      ∃ image, Kind.blankField? (k := .image) key = none ∧
        w.store.images.lookup? found = some image ∧ ended.1 = some (.ok image) ∧
        ended.2.store = (w.store.remove .image found).2 := by
  rw [deleteImage_eq, hfound] at hrun
  cases hblank : Kind.blankField? (k := .image) key with
  | some field =>
    rw [hblank] at hrun
    subst hrun
    exact .inl ⟨field, rfl, rfl, rfl⟩
  | none =>
    obtain ⟨t, ht, hdelete⟩ := run_request_bind (c := .delete found) hc not_false hw (deleted found)
    rw [World.perform, ht.store] at hdelete
    rw [hblank] at hrun
    cases himage : w.store.images.lookup? found with
    | none =>
      rw [Store.remove_of_none (k := .image) himage] at hdelete
      cases hdelete.symm.trans hrun
      exact .inr (.inl ⟨rfl, rfl, rfl, rfl⟩)
    | some image =>
      have hremove : (w.store.remove .image found).1 = some image :=
        congrArg Prod.fst (Store.remove_of_some (k := .image) himage)
      dsimp only at hdelete
      rw [hremove] at hdelete
      cases hdelete.symm.trans hrun
      exact .inr (.inr ⟨image, rfl, rfl, rfl, rfl⟩)

/-- The same of a deletion. -/
theorem delete_listed (hc : conditions.Faultless) (hw : w.landings = []) (hkeyed : w.store.Keyed)
    (hkey : key ∈ w.store.images.available) {found : ImageKey}
    (hfound : Kind.trimKey (k := .image) key = found)
    (hrun : (deleteImage key.tag key.type).run conditions .never w = ended) :
    (Deletes w.store ended.2.store key ended.1 ↔ Kind.Tidy (k := .image) key) ∧
      (Deletes w.store ended.2.store found ended.1 ∨
        Refuses w.store ended.2.store ended.1 (.noImage found)) := by
  have hrefused (e : ServiceError) (he : ended.1 = some (.error e)) :
      ¬ Deletes w.store ended.2.store key ended.1 := by
    rintro ⟨image, -, hok, -⟩
    cases he.symm.trans hok
  rcases delete_cases hc hw hfound hrun with
    ⟨field, hblank, hresult, hstore⟩ | ⟨-, hnone, hresult, hstore⟩ |
    ⟨image, hblank, himage, hresult, hstore⟩
  · refine ⟨iff_of_false (hrefused _ hresult) ?_, .inr ⟨.inl ⟨field, hresult⟩, hstore⟩⟩
    rintro ⟨hfilled, -⟩
    cases hblank.symm.trans hfilled
  · refine ⟨iff_of_false (hrefused _ hresult) ?_, .inr ⟨.inr hresult, hstore⟩⟩
    rintro ⟨-, htrim⟩
    obtain ⟨image, himage⟩ := Shelf.mem_available.mp hkey
    rw [← hfound, htrim] at hnone
    cases hnone.symm.trans himage
  · have hsome : (w.store.remove .image found).1 = some image :=
      congrArg Prod.fst (Store.remove_of_some (k := .image) himage)
    have hdeletes : Deletes w.store ended.2.store found ended.1 := by
      rcases w.store.remove_cases (hkeyed.shelf .image) found with
        hnone | ⟨other, hother, hkeyOf, hremoves⟩
      · rw [hnone] at hsome
        cases hsome
      · obtain rfl : image = other := Option.some.inj (hsome.symm.trans hother)
        exact ⟨image, hkeyOf, hresult, hstore ▸ hremoves⟩
    refine ⟨⟨?_, fun htidy => ?_⟩, .inl hdeletes⟩
    · rintro ⟨other, hother, hok, -⟩
      cases hresult.symm.trans hok
      have hkeyOf : image.key = found := Shelf.keyOf_of_lookup? (k := .image) himage
      exact ⟨hblank, hfound.trans (hkeyOf.symm.trans hother)⟩
    · have hsame : found = key := hfound.symm.trans htidy.2
      rwa [hsame] at hdeletes

end Deletions

/-- Without faults the service lists the keys of its catalog. To an address it assigns a listed key,
and it deletes the image of one, exactly if the key has no blank field and no outer blanks. Of every
other listed key it does so with the key that trimming leaves of it, or it refuses it, and says of an
assignment that the key is not in a list that has it. -/
theorem listed_usable_iff (s : Service) (conditions : Conditions) (w : World)
    (hc : conditions.Faultless) (hw : w.landings = []) (hkeyed : w.store.Keyed) :
    (∀ k : Kind,
      (((Operation.available k).plan s).run conditions .never w).1 =
        some (.ok (w.store.shelf k).available) ∧
      ∀ key ∈ (w.store.shelf k).available, ∀ raw mac, Identity.normalize raw = .ok (.mac mac) →
        let ended := ((Operation.assign k raw key).plan s).run conditions .never w
        (Assigns w.store ended.2.store mac key ended.1 ↔ Kind.Tidy key) ∧
          (Assigns w.store ended.2.store mac (Kind.trimKey key) ended.1 ∨
            Refuses w.store ended.2.store ended.1
              (.unavailable k (Kind.trimKey key) (w.store.shelf k).available))) ∧
    ∀ key ∈ w.store.images.available,
      let found : ImageKey := Kind.trimKey (k := .image) key
      let ended := ((Operation.deleteImage key.tag key.type).plan s).run conditions .never w
      (Deletes w.store ended.2.store key ended.1 ↔ Kind.Tidy (k := .image) key) ∧
        (Deletes w.store ended.2.store found ended.1 ∨
          Refuses w.store ended.2.store ended.1 (.noImage found)) := by
  refine ⟨fun k => ⟨?_, fun key hkey raw mac hraw => assign_listed s hc hw hkey hraw rfl⟩, ?_⟩
  · have honly : (available k).Only Call.Reads :=
      Plan.only_request (c := .available k) trivial
    obtain ⟨v, hv, -, -⟩ := Plan.run_reads honly hw
      (Deadline.passed_never (w.now + (available k).duration conditions (w.answers conditions)))
    change ((available k).run conditions .never w).1 = _
    rw [hv, eval_available hc]
  · intro key hkey found ended
    have hfound : Kind.trimKey (k := .image) key = found := rfl
    have hrun : (deleteImage key.tag key.type).run conditions .never w = ended := rfl
    clear_value found ended
    exact delete_listed hc hw hkeyed hkey hfound hrun

/-- Of two listed payloads the one without outer blanks is assigned and the other is not, and an
image is deleted. -/
theorem listed_usable_iff_three :
    let s := Service.ofConfig {}
    let w : World := { store := {
      payloads := {
        catalog := [⟨" site", "/srv/site"⟩, ⟨"rescue", "/srv/rescue"⟩]
        assignments := [⟨"aabbccddeeff", "default"⟩] }
      images := { catalog := [⟨"ubuntu", "images", "22.04", "gpu", "quiet", none⟩] } } }
    let assigned (id : String) :=
      ((Operation.assign .payload "AA:BB:CC:DD:EE:FF" id).plan s).run {} .never w
    let removed := ((Operation.deleteImage "22.04" "gpu").plan s).run {} .never w
    Conditions.Faultless {} ∧ w.landings = [] ∧ w.store.Keyed ∧
      (((Operation.available .payload).plan s).run {} .never w).1 = some (.ok [" site", "rescue"]) ∧
      Assigns (k := .payload) w.store (assigned "rescue").2.store "aabbccddeeff" "rescue"
        (assigned "rescue").1 ∧
      ¬ Assigns (k := .payload) w.store (assigned " site").2.store "aabbccddeeff" " site"
        (assigned " site").1 ∧
      Deletes w.store removed.2.store ⟨"22.04", "gpu"⟩ removed.1 := by
  intro s w assigned removed
  have hquiet : Conditions.Faultless {} := fun _ _ => rfl
  have hkeyed : w.store.Keyed :=
    ⟨fun k => by cases k <;> exact ⟨by decide, by decide, by decide⟩, by decide⟩
  obtain ⟨hlisted, hdelete⟩ := listed_usable_iff s {} w hquiet rfl hkeyed
  obtain ⟨hpayloads, hassign⟩ := hlisted .payload
  have havailable : (w.store.shelf .payload).available = [" site", "rescue"] :=
    List.mergeSort_of_pairwise (by decide)
  have himages : w.store.images.available = [⟨"22.04", "gpu"⟩] := by cbv
  have hraw : Identity.normalize "AA:BB:CC:DD:EE:FF" = .ok (.mac "aabbccddeeff") := by cbv
  have hrescue : Kind.Tidy (k := .payload) "rescue" := by
    have htrim : Text.trim "rescue" = "rescue" := by cbv
    simp [Kind.Tidy, Kind.blankField?, Kind.trimKey, htrim]
  have hgpu : Kind.Tidy (k := .image) ⟨"22.04", "gpu"⟩ := by
    have htag : Text.trim "22.04" = "22.04" := by cbv
    have htype : Text.trim "gpu" = "gpu" := by cbv
    simp [Kind.Tidy, Kind.blankField?, Kind.trimKey, htag, htype]
  have hsite : ¬ Kind.Tidy (k := .payload) " site" := by
    have htrim : Text.trim " site" = "site" := by cbv
    simp [Kind.Tidy, Kind.trimKey, htrim]
  rw [havailable] at hpayloads hassign
  rw [himages] at hdelete
  refine ⟨hquiet, rfl, hkeyed, hpayloads, ?_, ?_, ?_⟩
  · exact (hassign "rescue" (by decide) _ _ hraw).1.mpr hrescue
  · exact mt (hassign " site" (by decide) _ _ hraw).1.mp hsite
  · exact (hdelete ⟨"22.04", "gpu"⟩ List.mem_cons_self).1.mpr hgpu

/-- A payload whose identifier starts with a blank, and an image whose tag ends with one: both are
listed, and neither can be assigned, nor the image deleted. -/
theorem listed_refused_padded :
    let payload : Payload := ⟨" rescue", "/srv/rescue"⟩
    let image : Image := ⟨"ubuntu", "images", "22.04 ", "gpu", "quiet", none⟩
    let w : World :=
      { store := { payloads := { catalog := [payload] }, images := { catalog := [image] } } }
    let mac := "aabbccddeeff"
    Store.enterAll {} [.entry (k := .payload) payload, .entry (k := .image) image] = .ok w.store ∧
      Identity.normalize mac = .ok (.mac mac) ∧
      ((available .payload).run {} .never w).1 = some (.ok [" rescue"]) ∧
      ((assignPayload mac " rescue").run {} .never w).1 =
        some (.error (.unavailable .payload "rescue" [" rescue"])) ∧
      ((available .image).run {} .never w).1 = some (.ok [⟨"22.04 ", "gpu"⟩]) ∧
      ((assignImage mac "22.04 " "gpu").run {} .never w).1 =
        some (.error (.unavailable .image ⟨"22.04", "gpu"⟩ [⟨"22.04 ", "gpu"⟩])) ∧
      ((deleteImage "22.04 " "gpu").run {} .never w).1 =
        some (.error (.noImage ⟨"22.04", "gpu"⟩)) := by
  intro payload image w mac
  have htrim : Text.trim " rescue" = "rescue" := by cbv
  have htag : Text.trim "22.04 " = "22.04" := by cbv
  have htype : Text.trim "gpu" = "gpu" := by cbv
  refine ⟨rfl, by cbv, by cbv, ?_, by cbv, ?_, ?_⟩
  · simp only [assignPayload, require, htrim]
    cbv
  · simp only [assignImage, require, htag, htype]
    cbv
  · simp only [deleteImage, require, htag, htype]
    cbv

end Service
end FleetBoot
