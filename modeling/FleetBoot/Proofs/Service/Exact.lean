import FleetBoot.Proofs.Service.Choice
import Mathlib

/-! A resolution by a whole address gives the chosen entry, signed, and fails only where objects
cannot be signed. -/
namespace FleetBoot.Service
variable {k : Kind} {s : Service} {u w : World} {conditions : Conditions}

/-- What is left of a resolution when the entry is chosen. -/
def provision (s : Service) (mac : String) (chosen : k.Entry × Tier) :
    Plan ServiceError (Resolution k.Answer) :=
  if chosen.2 = .device then (s.cascade k).serve mac mac chosen.1
  else (s.cascade k).provide mac chosen

/-- The tables when a resolution looks for the row of the device. -/
def seen (k : Kind) (conditions : Conditions) (mac : String) (w : World) : Shelf k :=
  (w.elapse (w.now + conditions.delay (.find k (.mac mac) 1))).store.shelf k

theorem seen_of_landings (hw : w.landings = []) (conditions : Conditions) (mac : String) :
    seen k conditions mac w = w.store.shelf k := by
  rw [seen, (World.elapse_alike hw _).store]

/-- Without faults the row of the device is found, and what follows goes on with it. -/
theorem run_deviceRow_bind {α : Type} (hc : conditions.Faultless) (mac : String) (w : World)
    (f : Option (StoredRow k) → Plan ServiceError α) :
    ∃ v, v.Similar w ∧ (w.landings = [] → v.Alike w) ∧
      ((deviceRow k (.mac mac)).bind f).run conditions .never w =
        (f (((seen k conditions mac w).row? mac).map (seen k conditions mac w).hydrate)).run
          conditions .never v := by
  let t := w.elapse (w.now + conditions.delay (.find k (.mac mac) 1))
  refine ⟨t, w.elapse_similar _, fun hw => World.elapse_alike hw _, ?_⟩
  have hanswer : t.answer conditions (.find k (.mac mac) 1) =
      (.ok ((t.store.shelf k).find (.mac mac) 1), t) := by
    rw [World.answer_eq_perform hc id]
    rfl
  have hcall : (deviceRow k (.mac mac)).bind f = .call (.find k (.mac mac) 1) fun rows =>
      (((Plan.ofExcept rows).mapError (ServiceError.ofCall (.find k (.mac mac) 1))).bind fun rows =>
        .ofExcept (selectRow (.mac mac) rows)).bind f := rfl
  rw [hcall, Plan.run, Deadline.wait_never]
  dsimp only
  rw [if_pos rfl, show w.elapse _ = t from rfl, hanswer, Shelf.find_mac]
  dsimp only [Plan.ofExcept, Plan.mapError, Plan.bind]
  rw [Shelf.selectRow_mac]
  rfl

/-- Without a deadline and without faults the reads of a resolution choose the entry. -/
theorem run_resolve (s : Service) (hc : conditions.Faultless) (w : World) (mac : String)
    (caller : Option Address) :
    ∃ v, v.Similar w ∧ (w.landings = [] → v.Alike w) ∧
      ((s.cascade k).resolve (.mac mac) caller).run conditions .never w =
        (s.provision mac ((seen k conditions mac w).choice (s.globalEntry (w.answers conditions) k)
          mac caller)).run conditions .never v := by
  obtain ⟨t, ht, htw, hfind⟩ := run_deviceRow_bind hc mac w
    fun row => ((s.cascade k).ofRow row).bind ((s.cascade k).goOn mac caller)
  obtain ⟨v, hv, hvt, hown⟩ := Plan.run_rowless_bind conditions
    ((only_ofRow (k := k) s _).mono fun _ => Call.OnObjects.rowless) ht
    ((s.cascade k).goOn mac caller)
  rw [eval_ofRow, Shelf.map_ownEntry] at hown
  rw [Cascade.resolve_mac, Cascade.deviceEntry_eq, Plan.bind_assoc, hfind, hown, Shelf.choice]
  have hvw : w.landings = [] → v.Alike w := fun hw =>
    (hvt ((htw hw).landings.trans hw)).trans (htw hw)
  cases (seen k conditions mac w).ownEntry (s.globalEntry (w.answers conditions) k) mac with
  | some entry => exact ⟨v, hv, hvw, rfl⟩
  | none =>
    obtain ⟨u, hu, huv, hdefault⟩ := Plan.run_rowless_bind conditions
      (only_defaultEntry (k := k) s caller) hv ((s.cascade k).provide mac)
    rw [eval_defaultEntry s (answers_networkDefault hc w)] at hdefault
    refine ⟨u, hu, fun hw => (huv ((hvw hw).landings.trans hw)).trans (hvw hw), ?_⟩
    refine hdefault.trans ?_
    rw [seen, (w.elapse_similar _).defaultEntry, provision, if_neg]
    exact Shelf.defaultEntry_ne_device _ _ _

/-- The answer for the chosen entry is delivered. The world stays as it is, but for the row of a
device that had no entry of its own. -/
theorem run_provision (s : Service) (conditions : Conditions) (mac : String)
    (chosen : k.Entry × Tier) (hu : u.Similar w) :
    ∃ v : World, (u.landings = [] → v.Alike u) ∧ (s.provision mac chosen).run conditions .never u =
      match ((s.cascade k).deliver mac (.mac mac) chosen.1).eval (w.answers conditions) with
      | .error e => (some (.error e), v)
      | .ok answer =>
        let kept := v.writeBack conditions .never (⟨mac, Kind.keyOf chosen.1⟩ : Assignment k)
        if chosen.2 = .device then (some (.ok ⟨answer, .device, none⟩), v)
        else (some (.ok ⟨answer, chosen.2, some kept.1⟩), kept.2) := by
  have hd := (only_deliver s mac (.mac mac) chosen.1).mono fun _ => Call.OnObjects.rowless
  unfold provision
  split
  · obtain ⟨v, -, hv, hrun⟩ := Plan.run_rowless_bind conditions hd hu
      fun answer => .done (⟨answer, .device, none⟩ : Resolution k.Answer)
    refine ⟨v, hv, hrun.trans ?_⟩
    cases Plan.eval (w.answers conditions) _ <;> rfl
  · obtain ⟨v, -, hv, hrun⟩ := Plan.run_rowless_bind conditions hd hu
      fun answer => .writeBack (⟨mac, Kind.keyOf chosen.1⟩ : Assignment k) fun outcome =>
        .done (⟨answer, chosen.2, some outcome⟩ : Resolution k.Answer)
    refine ⟨v, hv, hrun.trans ?_⟩
    cases Plan.eval (w.answers conditions) _ <;> rfl

/-- Where all can be signed the chosen entry is the answer. -/
theorem run_provision_ok (mac : String) (hu : u.Similar w) {chosen : k.Entry × Tier}
    (hs : s.Signs (w.answers conditions) chosen.1) :
    ∃ v : World, (u.landings = [] → v.Alike u) ∧ (s.provision mac chosen).run conditions .never u =
      let answer := s.answer (w.answers conditions) mac (.mac mac) chosen.1
      let kept := v.writeBack conditions .never (⟨mac, Kind.keyOf chosen.1⟩ : Assignment k)
      if chosen.2 = .device then (some (.ok ⟨answer, .device, none⟩), v)
      else (some (.ok ⟨answer, chosen.2, some kept.1⟩), kept.2) := by
  obtain ⟨v, hv, hrun⟩ := run_provision s conditions mac chosen hu
  rw [eval_deliver_ok hs] at hrun
  exact ⟨v, hv, hrun⟩

theorem run_provision_error (mac : String) (hu : u.Similar w) {chosen : k.Entry × Tier}
    (hs : ¬ s.Signs (w.answers conditions) chosen.1) :
    ∃ v cause, (s.provision mac chosen).run conditions .never u =
      (some (.error (.objectStore cause)), v) := by
  obtain ⟨cause, he⟩ := eval_deliver_error mac (.mac mac) hs
  obtain ⟨v, -, hrun⟩ := run_provision s conditions mac chosen hu
  rw [he] at hrun
  exact ⟨v, cause, hrun⟩

/-- A device that has an entry of its own gets it from its row, whoever calls. -/
theorem run_resolve_own (s : Service) (hc : conditions.Faultless) (hw : w.landings = [])
    {mac : String} {e : k.Entry}
    (hown : (w.store.shelf k).ownEntry (s.globalEntry (w.answers conditions) k) mac = some e)
    (caller : Option Address) :
    (((s.cascade k).resolve (.mac mac) caller).run conditions .never w).1 =
      some ((((s.cascade k).deliver mac (.mac mac) e).eval (w.answers conditions)).map
        fun answer => ⟨answer, .device, none⟩) := by
  obtain ⟨u, hu, -, hrun⟩ := run_resolve (k := k) s hc w mac caller
  obtain ⟨v, -, hprovision⟩ := run_provision s conditions mac (e, .device) hu
  rw [seen_of_landings hw, Shelf.choice, hown] at hrun
  rw [hrun, hprovision]
  cases ((s.cascade k).deliver mac (.mac mac) e).eval (w.answers conditions) <;> rfl

/-- The entry is the answer, from this tier, if it can be signed, and signing it is the only failure. -/
structure Delivers (s : Service) (ρ : (c : Call) → c.Answer) (mac : String) (identity : Identity)
    (chosen : k.Entry × Tier) (x : Option (Except ServiceError (Resolution k.Answer))) : Prop where
  signed : s.Signs ρ chosen.1 →
    ∃ kept, x = some (.ok ⟨s.answer ρ mac identity chosen.1, chosen.2, kept⟩)
  unsigned : ¬ s.Signs ρ chosen.1 → ∃ cause, x = some (.error (.objectStore cause))

/-- By a whole address a device gets the entry that the tables choose when they are looked at. -/
theorem delivers_seen (s : Service) (hc : conditions.Faultless) (w : World) (mac : String)
    (caller : Option Address) :
    s.Delivers (w.answers conditions) mac (.mac mac)
      ((seen k conditions mac w).choice (s.globalEntry (w.answers conditions) k) mac caller)
      (((s.cascade k).resolve (.mac mac) caller).run conditions .never w).1 := by
  obtain ⟨u, hu, -, hrun⟩ := run_resolve (k := k) s hc w mac caller
  rw [hrun]
  constructor
  · intro hs
    obtain ⟨v, -, hv⟩ := run_provision_ok mac hu hs
    rw [hv]
    dsimp only
    split
    · next hd => exact ⟨none, by rw [hd]⟩
    · exact ⟨_, rfl⟩
  · intro hs
    obtain ⟨v, cause, hv⟩ := run_provision_error mac hu hs
    exact ⟨cause, by rw [hv]⟩

theorem delivers_mac (s : Service) (hc : conditions.Faultless) (hw : w.landings = []) (mac : String)
    (caller : Option Address) :
    s.Delivers (w.answers conditions) mac (.mac mac)
      ((w.store.shelf k).choice (s.globalEntry (w.answers conditions) k) mac caller)
      (((s.cascade k).resolve (.mac mac) caller).run conditions .never w).1 := by
  have hdelivers := delivers_seen (k := k) s hc w mac caller
  rwa [seen_of_landings hw] at hdelivers

/-- By a whole address a device gets the entry that its row, its network or the settings choose, in
this order, as long as its objects can be signed; and there is no other failure. -/
theorem resolve_mac_exact (s : Service) (w : World) (conditions : Conditions) (raw mac : String)
    (caller : Option Address) (hraw : Identity.normalize raw = .ok (.mac mac))
    (hc : conditions.Faultless) :
    let ρ := w.answers conditions
    let chosen := (seen k conditions mac w).choice (s.globalEntry ρ k) mac caller
    let resolution := (((s.cascade k).resolve (.mac mac) caller).run conditions .never w).1
    let result := ((s.resolve raw caller k).run conditions .never w).1
    (w.landings = [] → seen k conditions mac w = w.store.shelf k) ∧
    (s.Signs ρ chosen.1 →
      (∃ kept, resolution = some (.ok ⟨s.answer ρ mac (.mac mac) chosen.1, chosen.2, kept⟩)) ∧
      result = some (.ok (s.answer ρ mac (.mac mac) chosen.1))) ∧
    (¬ s.Signs ρ chosen.1 →
      ∃ cause, resolution = some (.error (.objectStore cause)) ∧
        result = some (.error (.objectStore cause))) := by
  intro ρ chosen resolution result
  have hresult : result = resolution.map (Except.map Resolution.answer) := by
    simp only [result, resolve_of_normalize hraw, Plan.run_map, resolution]
  obtain ⟨u, hu, -, hrun⟩ := run_resolve (k := k) s hc w mac caller
  refine ⟨fun hw => seen_of_landings hw conditions mac, ?_, ?_⟩
  · intro hs
    obtain ⟨v, -, hv⟩ := run_provision_ok mac hu hs
    have hkept : ∃ kept, resolution =
        some (.ok ⟨s.answer ρ mac (.mac mac) chosen.1, chosen.2, kept⟩) := by
      rw [show resolution = _ from congrArg Prod.fst (hrun.trans hv)]
      dsimp only
      split
      · next hd => exact ⟨none, by rw [hd]⟩
      · exact ⟨_, rfl⟩
    obtain ⟨kept, hk⟩ := hkept
    exact ⟨⟨kept, hk⟩, by rw [hresult, hk]; rfl⟩
  · intro hs
    obtain ⟨v, cause, hv⟩ := run_provision_error mac hu hs
    have hr : resolution = some (.error (.objectStore cause)) :=
      congrArg Prod.fst (hrun.trans hv)
    exact ⟨cause, hr, by rw [hresult, hr]; rfl⟩

theorem resolve_mac_exact_uncatalogued :
    let s := Service.ofConfig {}
    let w : World := {
      store := { images := { assignments := [⟨"aabbccddeeff", ⟨"default", "default"⟩⟩] } }
      objects := ObjectStore.put {} "default" "default/cmdline" "quiet\n".toUTF8.toList }
    Identity.normalize "AA:BB:CC:DD:EE:FF" = .ok (.mac "aabbccddeeff") ∧
      Conditions.Faultless {} ∧ ∃ c : BootConfig,
        ((s.resolveImage "AA:BB:CC:DD:EE:FF" none).run {} .never w).1 = some (.ok c) ∧
        c.key = ⟨"default", "default"⟩ ∧ c.cmdline = "quiet" ∧ c.hostname = "gddeeff" := by
  intro s w
  have hraw : Identity.normalize "AA:BB:CC:DD:EE:FF" = .ok (.mac "aabbccddeeff") := by cbv
  have hc : Conditions.Faultless {} := fun _ _ => rfl
  have hchosen : (seen .image {} "aabbccddeeff" w).choice (s.globalEntry (w.answers {}) .image)
      "aabbccddeeff" none = (s.globalImageWith "quiet", .device) := by
    rw [seen_of_landings (w := w) rfl]
    cbv
  obtain ⟨-, hsigned, -⟩ := resolve_mac_exact (k := .image) s w {} _ _ none hraw hc
  have hresult := (hsigned fun _ _ => ⟨_, rfl⟩).2
  have hname : Identity.hostName (.mac "aabbccddeeff") = "gddeeff" := by cbv
  rw [hchosen] at hresult
  exact ⟨hraw, hc, _, hresult, rfl, rfl, hname⟩

end FleetBoot.Service
