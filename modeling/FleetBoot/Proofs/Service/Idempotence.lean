import FleetBoot.Proofs.Service.Exact

/-! A device that has no row is resolved twice. The second answer comes from the row that the first
one left, and is the first one again unless the default for all is in the catalog in other words. -/
namespace FleetBoot

namespace Shelf
variable {k : Kind} {s : Shelf k} {mac : String}

theorem choice_of_none (h : s.row? mac = none) (global : k.Entry) (caller : Option Address) :
    s.choice global mac caller = s.defaultEntry global caller := by
  rw [choice, ownEntry, h, Option.bind_none]

/-- A default that was kept is looked up in the catalog by its key. -/
theorem choice_withRow (h : s.row? mac = none) (global : k.Entry) (first caller : Option Address) :
    let kept := (s.defaultEntry global first).1
    (s.withRow ⟨mac, Kind.keyOf kept⟩).choice global mac caller =
      ((s.lookup? (Kind.keyOf kept)).getD kept, .device) := by
  intro kept
  have hrow : (s.withRow ⟨mac, Kind.keyOf kept⟩).row? mac = some ⟨mac, Kind.keyOf kept⟩ := by
    rw [row?_withRow h, if_pos rfl]
  have hlookup (key : k.Key) :
      (s.withRow ⟨mac, Kind.keyOf kept⟩).lookup? key = s.lookup? key := rfl
  rw [choice, ownEntry, hrow, Option.bind_some, entryOf, hlookup]
  cases he : s.lookup? (Kind.keyOf kept) with
  | some entry => rfl
  | none =>
    have hkept : kept = global := by
      simp only [kept, defaultEntry] at he ⊢
      split
      · next entry hn =>
        obtain ⟨ip, -, hip⟩ := Option.bind_eq_some_iff.mp hn
        simp [hn, lookup?_networkDefault hip] at he
      · rfl
    simp [hkept]

end Shelf

namespace Service
variable {k : Kind} {conditions : Conditions}

/-- The first of two resolutions keeps what it answers. -/
theorem run_first (s : Service) (w : World) (mac : String) (caller : Option Address)
    (hrow : (w.store.shelf k).row? mac = none) (hw : w.landings = [])
    (hc : conditions.Faultless) (hadmits : ∀ row : Assignment k, conditions.admits row = true)
    (hsign : k = .image → ∀ signing, ∃ url, w.answers conditions (.presign signing) = .ok url) :
    let chosen := (w.store.shelf k).defaultEntry (s.globalEntry (w.answers conditions) k) caller
    ∃ v : World, ((s.cascade k).resolve (.mac mac) caller).run conditions .never w =
        (some (.ok ⟨s.answer (w.answers conditions) mac (.mac mac) chosen.1, chosen.2,
          some .inserted⟩), v) ∧
      v.Similar w ∧ v.store.shelf k = (w.store.shelf k).withRow ⟨mac, Kind.keyOf chosen.1⟩ ∧
      v.landings = [] := by
  intro chosen
  have hs : s.Signs (w.answers conditions) chosen.1 := signs_of_presign hsign chosen.1
  obtain ⟨u, hu, huw, hrun⟩ := run_resolve (k := k) s hc w mac caller
  obtain ⟨v, hvu, hprovide⟩ := run_provision_ok mac hu hs
  have hv : v.Alike w := (hvu ((huw hw).landings.trans hw)).trans (huw hw)
  have hrow' : (v.store.shelf k).row? mac = none := by rw [hv.store, hrow]
  obtain ⟨t, hkeep, htv, hshelf, hlandings⟩ := World.writeBack_inserted
    (hadmits ⟨mac, Kind.keyOf chosen.1⟩) (hv.landings.trans hw) hrow'
  refine ⟨t, ?_, htv.trans hv.similar, by rw [hshelf, hv.store], hlandings⟩
  rw [hrun, seen_of_landings hw, Shelf.choice_of_none hrow, hprovide]
  dsimp only
  rw [if_neg (Shelf.defaultEntry_ne_device _ _ _), hkeep]

/-- A default that was kept is found again as it was, unless it is the default for all and the
catalog has another entry under its key. -/
theorem answer_kept_iff (s : Service) (ρ : (c : Call) → c.Answer) (shelf : Shelf k) (mac : String)
    (identity : Identity) (caller : Option Address) :
    let global := s.globalEntry ρ k
    let kept := shelf.defaultEntry global caller
    s.answer ρ mac identity ((shelf.lookup? (Kind.keyOf kept.1)).getD kept.1) =
        s.answer ρ mac identity kept.1 ↔
      ¬ (kept.2 = .global ∧
        ∃ e, shelf.lookup? (s.cascade k).globalKey = some e ∧ shown e ≠ global) := by
  intro global kept
  simp only [kept, Shelf.defaultEntry]
  split
  · next entry hn =>
    obtain ⟨ip, -, hip⟩ := Option.bind_eq_some_iff.mp hn
    simp [Shelf.lookup?_networkDefault hip]
  · rw [show Kind.keyOf global = (s.cascade k).globalKey from keyOf_globalEntry s ρ k]
    cases he : shelf.lookup? (s.cascade k).globalKey with
    | none => simp
    | some entry =>
      rw [Option.getD_some, answer_eq_global_iff]
      simp [global]

/-- A device that had no row is answered from its row the second time. Both answers are the same
unless the first was the default for all and the catalog has another entry under its key. -/
theorem second_resolution (s : Service) (w : World) (conditions : Conditions) (raw mac : String)
    (first second : Option Address) (hraw : Identity.normalize raw = .ok (.mac mac))
    (hrow : (w.store.shelf k).row? mac = none) (hw : w.landings = [])
    (hc : conditions.Faultless) (hadmits : ∀ row : Assignment k, conditions.admits row = true)
    (hsign : k = .image → ∀ signing, ∃ url, w.answers conditions (.presign signing) = .ok url) :
    ∃ (r₁ r₂ : Resolution k.Answer) (v₁ v₂ : World),
      ((s.cascade k).resolve (.mac mac) first).run conditions .never w = (some (.ok r₁), v₁) ∧
      (s.resolve raw first k).run conditions .never w = (some (.ok r₁.answer), v₁) ∧
      ((s.cascade k).resolve (.mac mac) second).run conditions .never v₁ = (some (.ok r₂), v₂) ∧
      (s.resolve raw second k).run conditions .never v₁ = (some (.ok r₂.answer), v₂) ∧
      r₂.tier = .device ∧
      (r₂.answer = r₁.answer ↔ ¬ (r₁.tier = .global ∧
        ∃ e, (w.store.shelf k).lookup? (s.cascade k).globalKey = some e ∧
          shown e ≠ s.globalEntry (w.answers conditions) k)) := by
  let ρ := w.answers conditions
  let kept := (w.store.shelf k).defaultEntry (s.globalEntry ρ k) first
  obtain ⟨v₁, hfirst, hv₁, hshelf, hlandings⟩ :=
    run_first s w mac first hrow hw hc hadmits hsign
  have hρ : ∀ c : Call, c.OnObjects → v₁.answers conditions c = ρ c :=
    fun c ho => hv₁.answer ho.rowless
  have hchoice : (seen k conditions mac v₁).choice (s.globalEntry (v₁.answers conditions) k) mac
      second = (((w.store.shelf k).lookup? (Kind.keyOf kept.1)).getD kept.1, .device) := by
    rw [seen_of_landings hlandings, hshelf, globalEntry_congr s hρ]
    exact Shelf.choice_withRow hrow _ first second
  obtain ⟨u, hu, -, hsecond⟩ := run_resolve (k := k) s hc v₁ mac second
  rw [hchoice] at hsecond
  have hsign₁ : k = .image → ∀ signing, ∃ url,
      v₁.answers conditions (.presign signing) = .ok url := by
    intro hk signing
    rw [hρ (.presign signing) trivial]
    exact hsign hk signing
  obtain ⟨v₂, -, hanswer⟩ := run_provision_ok mac hu (signs_of_presign hsign₁ _)
  rw [hanswer] at hsecond
  dsimp only at hsecond
  rw [if_pos rfl, answer_congr s hρ] at hsecond
  refine ⟨_, _, v₁, v₂, hfirst, ?_, hsecond, ?_, rfl, answer_kept_iff s ρ _ mac (.mac mac) first⟩
  · rw [resolve_of_normalize hraw, Plan.run_map, hfirst]
    rfl
  · rw [resolve_of_normalize hraw, Plan.run_map, hsecond]
    rfl

theorem second_resolution_same :
    let s := Service.ofConfig {}
    let w : World := { store := { payloads := {
      catalog := [⟨"rack7", "/payloads/rack7"⟩], networks := [⟨"10.7.0.0/16", "rack7"⟩] } } }
    Identity.normalize "AA:BB:CC:DD:EE:FF" = .ok (.mac "aabbccddeeff") ∧
      (w.store.shelf .payload).row? "aabbccddeeff" = none ∧ w.landings = [] ∧
      Conditions.Faultless {} ∧ (∀ row : Assignment .payload, Conditions.admits {} row = true) ∧
      (∀ signing, ∃ url, w.answers {} (.presign signing) = .ok url) ∧
      ∃ (r₁ r₂ : Resolution AssignedPayload) (v₁ v₂ : World),
        (s.payloads.resolve (.mac "aabbccddeeff") (Address.parse? "10.7.0.5")).run {} .never w =
          (some (.ok r₁), v₁) ∧
        (s.payloads.resolve (.mac "aabbccddeeff") none).run {} .never v₁ = (some (.ok r₂), v₂) ∧
        r₂.tier = .device ∧ r₂.answer = r₁.answer := by
  intro s w
  have hraw : Identity.normalize "AA:BB:CC:DD:EE:FF" = .ok (.mac "aabbccddeeff") := by cbv
  have hrow : (w.store.shelf .payload).row? "aabbccddeeff" = none := rfl
  have hc : Conditions.Faultless {} := fun _ _ => rfl
  have hadmits (row : Assignment .payload) : Conditions.admits {} row = true := rfl
  have hsign (signing : Signing) : ∃ url, w.answers {} (.presign signing) = .ok url := ⟨_, rfl⟩
  obtain ⟨r₁, r₂, v₁, v₂, h₁, -, h₂, -, htier, hanswer⟩ :=
    second_resolution s w {} _ _ (Address.parse? "10.7.0.5") none hraw hrow rfl hc hadmits
      fun _ => hsign
  have hnone : (w.store.shelf .payload).lookup? (s.cascade .payload).globalKey = none := by cbv
  refine ⟨hraw, hrow, rfl, hc, hadmits, hsign, r₁, r₂, v₁, v₂, h₁, h₂, htier, hanswer.mpr ?_⟩
  rintro ⟨-, e, he, -⟩
  cases hnone.symm.trans he

/-- The catalog may say of the default for all something else than the settings do. -/
theorem second_resolution_other :
    let s := Service.ofConfig {}
    let catalog : List Payload := [⟨"default", "/payloads/default"⟩]
    let w : World := { store := { payloads := { catalog } } }
    let v : World :=
      { store := { payloads := { catalog, assignments := [⟨"aabbccddeeff", "default"⟩] } } }
    let resolve := s.resolvePayload "aabbccddeeff" none
    Config.validate {} = .ok () ∧ w.store.payloads.row? "aabbccddeeff" = none ∧
      resolve.run {} .never w = (some (.ok ⟨"aabbccddeeff", "default", "default"⟩), v) ∧
      resolve.run {} .never v =
        (some (.ok ⟨"aabbccddeeff", "default", "/payloads/default"⟩), v) := by
  exact ⟨by cbv, rfl, by cbv, by cbv⟩

end Service
end FleetBoot
