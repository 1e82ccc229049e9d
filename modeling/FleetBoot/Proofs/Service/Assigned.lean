import FleetBoot.Proofs.Race.Calls
import FleetBoot.Proofs.Service.Exact
import FleetBoot.Proofs.Service.Frame
import FleetBoot.Proofs.Service.Names
import FleetBoot.Proofs.Service.Pick

/-! What an assignment leaves: nothing if it fails, and else its one row, by which the device is
answered from then on. -/
namespace FleetBoot

/-- An update changes what the named rows say, not which rows are named. -/
theorem Shelf.named_update {k : Kind} (s : Shelf k) (row : Assignment k) (identity : Identity) :
    (s.update row).2.named identity =
      (s.named identity).map fun a => if a.mac = row.mac then row else a := by
  let change (a : Assignment k) : Assignment k := if a.mac = row.mac then row else a
  have hmac (a : Assignment k) : (change a).mac = a.mac := by
    simp only [change]
    split
    · next h => exact h.symm
    · rfl
  have hfound : (s.update row).2.found identity = (s.found identity).map change := by
    have hfilter : (s.assignments.map change).filter (fun a => identity.finds a.mac) =
        (s.assignments.filter fun a => identity.finds a.mac).map change := by
      rw [List.filter_map]
      simp only [Function.comp_def, hmac]
    rw [found, found, List.map_mergeSort (s := macLe) fun a _ b _ => by
      simp only [macLe, hmac], ← hfilter]
    rfl
  rw [named, named, hfound, ← List.map_take, List.filter_map]
  simp only [Function.comp_def, hmac]
  rfl

namespace Service
variable {k : Kind} {w : World} {conditions : Conditions} {raw : String} {identity : Identity}

/-- The identity is this address, or it names the one row that has it. -/
def Names (shelf : Shelf k) (identity : Identity) (mac : String) : Prop :=
  identity = .mac mac ∨ ∃ token suffix a, identity = .hostname token suffix ∧
    shelf.named identity = [a] ∧ a.mac = mac

theorem names_of_eval_owner (hc : conditions.Faultless) {mac : String}
    (h : (owner k identity).eval (w.answers conditions) = .ok mac) :
    Names (w.store.shelf k) identity mac := by
  cases identity with
  | mac address =>
    cases h
    exact .inl rfl
  | hostname token suffix =>
    rw [owner, Identity.mac?, Plan.bind_eq, Plan.eval_bind] at h
    rcases hrow : (deviceRow k (.hostname token suffix)).eval (w.answers conditions) with
      e | _ | r
    · rw [hrow] at h
      cases h
    · rw [hrow] at h
      cases h
    · rw [hrow] at h
      cases h
      exact .inr ⟨token, suffix, r.row, rfl, named_of_eval_deviceRow hc hrow, rfl⟩

/-- The device has the row in the place of another one, or, named by its address, as its first. -/
def Gives (s t : Store) (identity : Identity) (row : Assignment k) : Prop :=
  (∃ old, (s.shelf k).row? row.mac = some old) ∧ t = (s.update row).2 ∨
    (s.shelf k).row? row.mac = none ∧ identity.mac?.isSome ∧
      t = s.withShelf ((s.shelf k).withRow row)

theorem run_request_bind {α : Type} (hc : conditions.Faultless) {c : Call} (hcall : ¬ c.OnObjects)
    (hw : w.landings = []) (f : c.Reply → Plan ServiceError α) :
    ∃ t : World, t.Alike w ∧ ((Plan.request c).bind f).run conditions .never w =
      match (t.perform c).1 with
      | .ok a => (f a).run conditions .never (t.perform c).2
      | .error e => (some (.error (ServiceError.ofCall c e)), (t.perform c).2) := by
  refine ⟨w.elapse (w.now + conditions.delay c), World.elapse_alike hw _, ?_⟩
  rw [← World.answer_eq_perform hc hcall, Plan.request, Plan.ask, Plan.mapError, Plan.bind_call,
    Plan.run_call, Deadline.wait_never]
  dsimp only
  rw [if_pos rfl]
  cases (World.answer _ conditions c).1 <;> rfl

theorem run_attempt_bind {α : Type} (hc : conditions.Faultless) {c : Call} (hcall : ¬ c.OnObjects)
    (hw : w.landings = []) (f : c.Answer → Plan ServiceError α) :
    ∃ t : World, t.Alike w ∧ ((Plan.attempt c).bind f).run conditions .never w =
      (f (t.perform c).1).run conditions .never (t.perform c).2 := by
  refine ⟨w.elapse (w.now + conditions.delay c), World.elapse_alike hw _, ?_⟩
  rw [← World.answer_eq_perform hc hcall]
  rfl

/-- What is left of an insert when its answer is there. -/
def inserted (row : Assignment k) : Except StoreError Unit → Plan ServiceError Unit
  | .ok () => .done ()
  | .error e => .fail (if e.isUnique then .assignedMeanwhile k row.mac else .storage e)

theorem insertRow_eq (row : Assignment k) :
    insertRow row = (Plan.attempt (.insert row)).bind (inserted row) := by
  refine congrArg (Plan.attempt (.insert row)).bind (funext fun answer => ?_)
  cases answer <;> rfl

theorem run_insertRow (hc : conditions.Faultless) (hw : w.landings = []) {row : Assignment k}
    (hrow : (w.store.shelf k).row? row.mac = none) :
    ∃ v, (insertRow row).run conditions .never w = (some (.ok ()), v) ∧ v.landings = [] ∧
      v.store = w.store.withShelf ((w.store.shelf k).withRow row) := by
  obtain ⟨t, ht, hrun⟩ :=
    run_attempt_bind (c := .insert row) hc not_false hw (inserted row)
  have hinsert : t.store.insert row = .ok (w.store.withShelf ((w.store.shelf k).withRow row)) := by
    rw [ht.store, Store.insert_of_none hrow]
  rw [World.perform, hinsert] at hrun
  rw [insertRow_eq]
  exact ⟨_, hrun, ht.landings.trans hw, rfl⟩

/-- What is left of a write when it is known how many rows have changed. -/
def settle (identity : Identity) (row : Assignment k) (changed : Nat) : Plan ServiceError Unit :=
  if 0 < changed then .done ()
  else match identity with
    | .mac _ => insertRow row
    | .hostname _ _ => .fail (.notFound k identity)

theorem write_eq (identity : Identity) (row : Assignment k) :
    write identity row = (Plan.request (.update row)).bind (settle identity row) := rfl

/-- Without faults a write gives the device its row, or the row that a token named is gone. -/
theorem run_write_cases (hc : conditions.Faultless) (hw : w.landings = []) (identity : Identity)
    (row : Assignment k) :
    ∃ u, u.landings = [] ∧
      ((write identity row).run conditions .never w = (some (.ok ()), u) ∧
          Gives w.store u.store identity row ∨
        identity.mac? = none ∧
          (write identity row).run conditions .never w =
            (some (.error (.notFound k identity)), u)) := by
  obtain ⟨t, ht, hrun⟩ :=
    run_request_bind (c := .update row) hc not_false hw (settle identity row)
  rw [World.perform, ht.store] at hrun
  rw [write_eq, hrun]
  cases hrow : (w.store.shelf k).row? row.mac with
  | some old =>
    have hpos : 0 < (w.store.update row).1 := Store.update_pos_iff.mpr ⟨old, hrow⟩
    dsimp only [settle]
    rw [if_pos hpos]
    refine ⟨{ t with store := (w.store.update row).2 }, ht.landings.trans hw, .inl ⟨rfl, ?_⟩⟩
    exact .inl ⟨⟨old, hrow⟩, rfl⟩
  | none =>
    rw [Store.update_of_none hrow]
    dsimp only [settle]
    rw [if_neg (Nat.lt_irrefl 0)]
    cases identity with
    | hostname token suffix =>
      exact ⟨{ t with store := w.store }, ht.landings.trans hw, .inr ⟨rfl, rfl⟩⟩
    | mac address =>
      obtain ⟨v, hv, hlandings, hstore⟩ := run_insertRow (w := { t with store := w.store }) hc
        (ht.landings.trans hw) hrow
      exact ⟨v, hlandings, .inl ⟨hv, .inr ⟨hrow, rfl, hstore⟩⟩⟩

/-- A write that succeeds gives the device its row. -/
theorem run_write (hc : conditions.Faultless) (hw : w.landings = []) (identity : Identity)
    (row : Assignment k) {u : World}
    (h : (write identity row).run conditions .never w = (some (.ok ()), u)) :
    u.landings = [] ∧ Gives w.store u.store identity row := by
  obtain ⟨v, hlandings, ⟨hv, hgives⟩ | ⟨-, hv⟩⟩ := run_write_cases hc hw identity row
  · cases hv.symm.trans h
    exact ⟨hlandings, hgives⟩
  · cases hv.symm.trans h

namespace Gives
variable {s t : Store} {row : Assignment k}

/-- One row has changed or come, and no other. -/
theorem changes (h : Gives s t identity row) (hs : (s.shelf k).Keyed) :
    s.ReplacesRow t row ∨ s.AddsRow t row := by
  obtain ⟨⟨old, hold⟩, rfl⟩ | ⟨hnone, -, rfl⟩ := h
  · exact .inl (Store.replacesRow_update hs hold)
  · exact .inr ⟨hnone, rfl⟩

theorem keyed (h : Gives s t identity row) (hs : s.Keyed) : t.Keyed := by
  obtain hreplaces | hadds := h.changes (hs.shelf k)
  · exact hreplaces.keyed hs
  · exact hadds.keyed hs

theorem row? (h : Gives s t identity row) : (t.shelf k).row? row.mac = some row := by
  obtain ⟨⟨old, hold⟩, rfl⟩ | ⟨hnone, -, rfl⟩ := h
  · rw [Store.shelf_update, Shelf.row?_update_self hold]
  · rw [Store.shelf_withShelf, Shelf.row?_withRow hnone, if_pos rfl]

theorem lookup? (h : Gives s t identity row) (key : k.Key) :
    (t.shelf k).lookup? key = (s.shelf k).lookup? key := by
  obtain ⟨-, rfl⟩ | ⟨-, -, rfl⟩ := h
  · rw [Store.shelf_update]
    rfl
  · rw [Store.shelf_withShelf]
    rfl

/-- Whoever names the device names its new row. -/
theorem names (h : Gives s t identity row)
    (hnames : Names (s.shelf k) identity row.mac) :
    identity = .mac row.mac ∨ ∃ token suffix, identity = .hostname token suffix ∧
      (t.shelf k).named identity = [row] := by
  obtain rfl | ⟨token, suffix, a, rfl, hnamed, hmac⟩ := hnames
  · exact .inl rfl
  · obtain ⟨-, rfl⟩ | ⟨-, hwhole, -⟩ := h
    · refine .inr ⟨token, suffix, rfl, ?_⟩
      rw [Store.shelf_update, Shelf.named_update, hnamed, List.map_singleton, if_pos hmac]
    · cases hwhole

end Gives

/-- A device is answered from the row that it was given, by the name under which it was given it. -/
theorem run_resolve_given (s : Service) (hc : conditions.Faultless) (hw : w.landings = [])
    {row : Assignment k} (hrow : (w.store.shelf k).row? row.mac = some row)
    (hnames : identity = .mac row.mac ∨ ∃ token suffix, identity = .hostname token suffix ∧
      (w.store.shelf k).named identity = [row]) {e : k.Entry}
    (he : (w.store.shelf k).lookup? row.key = some e) (caller : Option Address) :
    (((s.cascade k).resolve identity caller).run conditions .never w).1 =
      some ((((s.cascade k).deliver row.mac identity e).eval (w.answers conditions)).map
        fun answer => ⟨answer, .device, none⟩) := by
  have hentry : (w.store.shelf k).entryOf (s.globalEntry (w.answers conditions) k) row.key =
      some e := by rw [Shelf.entryOf, he]
  obtain rfl | ⟨token, suffix, rfl, hnamed⟩ := hnames
  · refine run_resolve_own s hc hw ?_ caller
    rw [Shelf.ownEntry, hrow, Option.bind_some, hentry]
  · rw [run_resolve_token s hc hw, tokenResult_of_named hnamed hentry]

theorem fits_answer (s : Service) (ρ : (c : Call) → c.Answer) (mac : String) (identity : Identity)
    (e : k.Entry) : Kind.Fits (Kind.assigned mac e) (s.answer ρ mac identity e) := by
  cases k <;> rfl

/-- By the name under which it was given its row the device is answered with what was assigned, or
its objects cannot be signed. -/
theorem answered_given (s : Service) (hc : conditions.Faultless)
    (hraw : Identity.normalize raw = .ok identity) {v : World} (hv : v.landings = [])
    {row : Assignment k} (hgives : Gives w.store v.store identity row)
    (hnames : Names (w.store.shelf k) identity row.mac) {e : k.Entry}
    (he : (w.store.shelf k).lookup? row.key = some e) (caller : Option Address) :
    let ρ := v.answers conditions
    let resolution := (((s.cascade k).resolve identity caller).run conditions .never v).1
    let result := ((s.resolve raw caller k).run conditions .never v).1
    (s.Signs ρ e → ∃ answer, resolution = some (.ok ⟨answer, .device, none⟩) ∧
      result = some (.ok answer) ∧ Kind.Fits (Kind.assigned row.mac e) answer) ∧
    (¬ s.Signs ρ e → ∃ cause, resolution = some (.error (.objectStore cause)) ∧
      result = some (.error (.objectStore cause))) := by
  intro ρ resolution result
  have hresolution : resolution =
      some ((((s.cascade k).deliver row.mac identity e).eval ρ).map
        fun answer => ⟨answer, .device, none⟩) :=
    run_resolve_given s hc hv hgives.row? (hgives.names hnames)
      ((hgives.lookup? row.key).trans he) caller
  have hresult : result = resolution.map (Except.map Resolution.answer) := by
    simp only [result, resolve_of_normalize hraw, Plan.run_map, resolution]
  constructor
  · intro hsign
    rw [eval_deliver_ok hsign] at hresolution
    refine ⟨_, hresolution, by rw [hresult, hresolution]; rfl, ?_⟩
    exact fits_answer s ρ row.mac identity e
  · intro hsign
    obtain ⟨cause, hcause⟩ := eval_deliver_error row.mac identity hsign
    rw [hcause] at hresolution
    exact ⟨cause, hresolution, by rw [hresult, hresolution]; rfl⟩

theorem run_give_ok (hc : conditions.Faultless) (hw : w.landings = [])
    {found : k.Key × (String → k.Assigned)} {a : k.Assigned} {u : World}
    (h : (give identity found).run conditions .never w = (some (.ok a), u)) :
    ∃ mac, a = found.2 mac ∧ Names (w.store.shelf k) identity mac ∧ u.landings = [] ∧
      Gives w.store u.store identity (⟨mac, found.1⟩ : Assignment k) := by
  obtain ⟨v, hv, -, howner⟩ := Plan.run_reads_bind (d := .never) (only_owner k identity)
    (.refl conditions) hw (Deadline.passed_never _) fun mac =>
      (write identity (⟨mac, found.1⟩ : Assignment k)).bind fun _ => .done (found.2 mac)
  rw [give, howner] at h
  cases hmac : (owner k identity).eval (w.answers conditions) with
  | error e =>
    rw [hmac] at h
    cases h
  | ok mac =>
    rw [hmac] at h
    dsimp only at h
    rw [Plan.run_bind] at h
    rcases hwrite : (write identity (⟨mac, found.1⟩ : Assignment k)).run conditions .never v with
      ⟨_ | e | ⟨⟩, t⟩
    · rw [hwrite] at h
      cases h
    · rw [hwrite] at h
      cases h
    · rw [hwrite] at h
      cases h
      obtain ⟨hlandings, hgives⟩ := run_write hc (hv.landings.trans hw) identity _ hwrite
      exact ⟨mac, rfl, names_of_eval_owner hc hmac, hlandings, hv.store ▸ hgives⟩

/-- An assignment that succeeds without faults has found its entry and gives the device its row. -/
theorem run_assign_ok (s : Service) (hc : conditions.Faultless) (hw : w.landings = [])
    {key : k.Key} {a : k.Assigned} {u : World}
    (h : ((Operation.assign k raw key).plan s).run conditions .never w = (some (.ok a), u)) :
    ∃ identity mac e, Identity.normalize raw = .ok identity ∧
      (w.store.shelf k).lookup? (Kind.trimKey key) = some e ∧ a = Kind.assigned mac e ∧
      Names (w.store.shelf k) identity mac ∧ u.landings = [] ∧
      Gives w.store u.store identity (⟨mac, Kind.trimKey key⟩ : Assignment k) := by
  cases hraw : Identity.normalize raw with
  | error cause =>
    rw [plan_assign_of_invalid s hraw] at h
    cases h
  | ok identity =>
    obtain ⟨v, hv, -, hpick⟩ := Plan.run_reads_bind (d := .never) (only_pick key) (.refl conditions)
      hw (Deadline.passed_never _) (give identity)
    rw [plan_assign_eq s hraw, hpick, eval_pick hc] at h
    cases hblank : Kind.blankField? key with
    | some field =>
      rw [hblank] at h
      cases h
    | none =>
      cases he : (w.store.shelf k).lookup? (Kind.trimKey key) with
      | none =>
        rw [hblank, he] at h
        cases h
      | some e =>
        rw [hblank, he] at h
        obtain ⟨mac, rfl, hnames, hlandings, hgives⟩ := run_give_ok hc (hv.landings.trans hw) h
        rw [hv.store] at hnames hgives
        exact ⟨identity, mac, e, rfl, rfl, rfl, hnames, hlandings, hgives⟩

/-- The name is that of a device and the key has all its fields, but the catalog lacks it. -/
def Missing (shelf : Shelf k) (raw : String) (key : k.Key) : Prop :=
  (∃ identity, Identity.normalize raw = .ok identity) ∧ Kind.blankField? key = none ∧
    ∀ e ∈ shelf.catalog, Kind.keyOf e ≠ Kind.trimKey key

theorem lookup?_eq_none_iff {shelf : Shelf k} {key : k.Key} :
    shelf.lookup? key = none ↔ ∀ e ∈ shelf.catalog, Kind.keyOf e ≠ key := by
  simp [Shelf.lookup?]

theorem run_assign_missing (s : Service) (hc : conditions.Faultless) (hw : w.landings = [])
    {key : k.Key} (h : Missing (w.store.shelf k) raw key) :
    (((Operation.assign k raw key).plan s).run conditions .never w).1 =
      some (.error (.unavailable k (Kind.trimKey key) (w.store.shelf k).available)) := by
  obtain ⟨⟨identity, hraw⟩, hblank, hmissing⟩ := h
  obtain ⟨v, -, -, hpick⟩ := Plan.run_reads_bind (d := .never) (only_pick key) (.refl conditions)
    hw (Deadline.passed_never _) (give identity)
  rw [plan_assign_eq s hraw, hpick, eval_pick hc, hblank, lookup?_eq_none_iff.mpr hmissing]

theorem missing_of_run_assign (s : Service) (hc : conditions.Faultless) (hw : w.landings = [])
    {key : k.Key} {j : Kind} {candidate : j.Key} {available : List j.Key}
    (h : (((Operation.assign k raw key).plan s).run conditions .never w).1 =
      some (.error (.unavailable j candidate available))) :
    Missing (w.store.shelf k) raw key := by
  cases hraw : Identity.normalize raw with
  | error cause =>
    rw [plan_assign_of_invalid s hraw] at h
    cases h
  | ok identity =>
    obtain ⟨v, -, -, hpick⟩ := Plan.run_reads_bind (d := .never) (only_pick key)
      (.refl conditions) hw (Deadline.passed_never _) (give identity)
    rw [plan_assign_eq s hraw, hpick, eval_pick hc] at h
    cases hblank : Kind.blankField? key with
    | some field =>
      rw [hblank] at h
      cases h
    | none =>
      cases he : (w.store.shelf k).lookup? (Kind.trimKey key) with
      | none => exact ⟨⟨identity, hraw⟩, hblank, lookup?_eq_none_iff.mp he⟩
      | some e =>
        rw [hblank, he] at h
        exact absurd rfl ((stocked_give identity _).run h j candidate available)

/-- An assignment that does not succeed leaves the database as it is, now and later. Without faults
and in time it is refused for want of its entry exactly if the catalog lacks the trimmed key. One that
succeeds, whatever fails and however late, has changed or added the one row of its device, and by the
same name the device is then answered from this row with what was assigned. -/
theorem assignment_exact (s : Service) (raw : String) (key : k.Key) (conditions : Conditions)
    (d : Deadline) (w : World) (hc : conditions.Honest) (hw : w.landings = [])
    (hkeyed : w.store.Keyed) :
    let ended := ((Operation.assign k raw key).plan s).run conditions d w
    ((∀ a, ended.1 ≠ some (.ok a)) → ∀ t, ended.2.Comes t → t = w.store) ∧
    (conditions.Faultless → ended.1 ≠ none →
      (Missing (w.store.shelf k) raw key →
        ended.1 = some (.error
          (.unavailable k (Kind.trimKey key) (w.store.shelf k).available))) ∧
      ∀ candidate available, ended.1 = some (.error (.unavailable k candidate available)) →
        Missing (w.store.shelf k) raw key) ∧
    ∀ a, ended.1 = some (.ok a) →
      let row : Assignment k := ⟨Kind.assignedMac a, Kind.trimKey key⟩
      ended.2.landings = [] ∧ ended.2.store.Keyed ∧
      (w.store.ReplacesRow ended.2.store row ∨ w.store.AddsRow ended.2.store row) ∧
      (∀ b, b ∈ (ended.2.store.shelf k).assignments ∧ b.mac = row.mac ↔ b = row) ∧
      ∃ identity e, Identity.normalize raw = .ok identity ∧
        e ∈ (w.store.shelf k).catalog ∧ Kind.keyOf e = row.key ∧ a = Kind.assigned row.mac e ∧
        ∀ (caller : Option Address) (after : Conditions), after.Faultless →
          let ρ := ended.2.answers after
          let resolution :=
            (((s.cascade k).resolve identity caller).run after .never ended.2).1
          let result := ((s.resolve raw caller k).run after .never ended.2).1
          (s.Signs ρ e → ∃ answer, resolution = some (.ok ⟨answer, .device, none⟩) ∧
            result = some (.ok answer) ∧ Kind.Fits a answer) ∧
          (¬ s.Signs ρ e → ∃ cause, resolution = some (.error (.objectStore cause)) ∧
            result = some (.error (.objectStore cause))) := by
  intro ended
  refine ⟨fun herror t ht => ?_, fun hfaultless hnone => ?_, fun a ha => ?_⟩
  · rcases (Operation.assign k raw key).run_frame s conditions d hkeyed hw ht with
      hsame | ⟨a, ha, -⟩
    · exact hsame
    · exact absurd ha (herror a)
  · have hprompt : ended.1 =
        (((Operation.assign k raw key).plan s).run conditions.prompt .never w).1 :=
      (Plan.run_prompt ((Operation.assign k raw key).changesLast_plan s) (.refl w) hw d).resolve_left
        hnone
    have hfaultless' : conditions.prompt.Faultless := hfaultless
    refine ⟨fun hmissing => ?_, fun candidate available h => ?_⟩
    · rw [hprompt, run_assign_missing s hfaultless' hw hmissing]
    · exact missing_of_run_assign s hfaultless' hw (hprompt.symm.trans h)
  · have hquiet : Conditions.Faultless {} := fun _ _ => rfl
    obtain ⟨u, hu, halike⟩ :=
      (strict_plan_assign s raw key).run_ok hc hquiet (.refl w) hw ha
    obtain ⟨identity, mac, e, hraw, he, rfl, hnames, hlandings, hgives⟩ :=
      run_assign_ok s hquiet hw hu
    have hended : ended.2.Alike u := halike
    rw [← hended.store] at hgives
    rw [← hended.landings] at hlandings
    intro row
    have hrow : row = ⟨mac, Kind.trimKey key⟩ := by
      simp only [row, Kind.assignedMac_assigned]
    rw [← hrow] at hgives
    have hmac : row.mac = mac := Kind.assignedMac_assigned mac e
    have hafter : ended.2.store.Keyed := hgives.keyed hkeyed
    refine ⟨hlandings, hafter, hgives.changes (hkeyed.shelf k), fun b => ?_, identity, e, hraw,
      List.mem_of_find?_eq_some he, Shelf.keyOf_of_lookup? he, by rw [hmac],
      fun caller after hfaultless => ?_⟩
    · rw [← (hafter.shelf k).row?_eq_some_iff, hgives.row?, Option.some_inj, eq_comm]
    · have hanswered :=
        answered_given s hfaultless hraw hlandings hgives (hmac ▸ hnames) he caller
      rw [hmac] at hanswered
      exact hanswered

/-- A device that its token names is given another payload, once while updates fail and once in
time. -/
theorem assignment_exact_token :
    let s := Service.ofConfig {}
    let w : World := { store := { payloads := {
      catalog := [⟨"rescue", "/payloads/rescue"⟩]
      assignments := [⟨"aabbccddeeff", "default"⟩, ⟨"001122334455", "rescue"⟩] } } }
    let locked : Conditions :=
      { reply := fun | .update _ => some (.error (.backend "locked")) | _ => none }
    let assign (id : String) (conditions : Conditions) :=
      ((Operation.assign .payload "gDDEEFF" id).plan s).run conditions ⟨some 100⟩ w
    let slow : Conditions := { delay := fun _ => 5 }
    let given : AssignedPayload := ⟨"aabbccddeeff", "rescue", "/payloads/rescue"⟩
    locked.Honest ∧ slow.Honest ∧ slow.Faultless ∧ w.landings = [] ∧ w.store.Keyed ∧
      (assign " rescue " locked).1 = some (.error (.storage (.backend "locked"))) ∧
      (assign " rescue " locked).2.store = w.store ∧
      (assign "gone" slow).1 = some (.error (.unavailable .payload "gone" ["rescue"])) ∧
      Missing (w.store.shelf .payload) "gDDEEFF" "gone" ∧
      (assign " rescue " slow).1 = some (.ok given) ∧
      w.store.ReplacesRow (assign " rescue " slow).2.store
        (⟨"aabbccddeeff", "rescue"⟩ : Assignment .payload) ∧
      ((s.resolvePayload "gDDEEFF" none).run {} .never (assign " rescue " slow).2).1 =
        some (.ok given) := by
  intro s w locked assign slow given
  have hlocked : locked.Honest := by
    intro c hcall a ha
    cases c with
    | update row => exact ⟨_, (Option.some.inj ha).symm⟩
    | _ => cases ha
  have hslow : slow.Faultless := fun _ _ => rfl
  have hkeyed : w.store.Keyed :=
    ⟨fun k => by cases k <;> exact ⟨by decide, by decide, by decide⟩, by decide⟩
  have htrim : Text.trim " rescue " = "rescue" := by cbv
  have hrequire : require "payload_id" " rescue " = .ok "rescue" := by
    simp only [require, htrim]
    rfl
  have hrequire' : require "payload_id" "gone" = .ok "gone" := by
    have htrim' : Text.trim "gone" = "gone" := by cbv
    simp only [require, htrim']
    rfl
  have hfailed : (assign " rescue " locked).1 = some (.error (.storage (.backend "locked"))) := by
    subst assign locked w s
    simp only [Operation.plan, assignPayload, hrequire]
    cbv
  have hgiven : (assign " rescue " slow).1 = some (.ok given) := by
    subst assign given slow w s
    simp only [Operation.plan, assignPayload, hrequire]
    cbv
  have hgone : (assign "gone" slow).1 =
      some (.error (.unavailable .payload "gone" ["rescue"])) := by
    subst assign slow w s
    simp only [Operation.plan, assignPayload, hrequire']
    cbv
  obtain ⟨hunchanged, -, -⟩ :=
    assignment_exact (k := .payload) s "gDDEEFF" " rescue " locked ⟨some 100⟩ w hlocked rfl hkeyed
  obtain ⟨-, hrefused, -⟩ :=
    assignment_exact (k := .payload) s "gDDEEFF" "gone" slow ⟨some 100⟩ w hslow.honest rfl hkeyed
  obtain ⟨-, -, hdone⟩ := assignment_exact (k := .payload) s "gDDEEFF" " rescue " slow ⟨some 100⟩ w
    hslow.honest rfl hkeyed
  have hsame : (assign " rescue " locked).2.store = w.store :=
    hunchanged (fun a ha => by cases hfailed.symm.trans ha) _ (.inl rfl)
  obtain ⟨-, -, hchange, -, identity, e, -, -, -, -, hafter⟩ := hdone given hgiven
  have hended : (assign "gone" slow).1 ≠ none := by
    rw [hgone]
    exact Option.some_ne_none _
  have hmissing := (hrefused hslow hended).2 _ _ hgone
  obtain ⟨answer, -, hanswer, hfits⟩ := (hafter none {} fun _ _ => rfl).1 trivial
  cases hfits
  refine ⟨hlocked, hslow.honest, hslow, rfl, hkeyed, hfailed, hsame, hgone, hmissing, hgiven, ?_,
    hanswer⟩
  simp only [Kind.trimKey, htrim] at hchange
  rcases hchange with hreplaces | ⟨hnone, -⟩
  · exact hreplaces
  · exact absurd hnone (by subst w; decide)

end Service
end FleetBoot
