import FleetBoot.Proofs.Race.Calls
import FleetBoot.Proofs.Race.Finish
import FleetBoot.Proofs.Service.Choice

/-! Requests for one device that has no row yet, in any order of their calls. One of them gives the
device its row, and no other fails for it. -/
namespace FleetBoot.Service
variable {k : Kind} {s : Service} {w : World} {conditions : Conditions} {mac : String}
  {callers : List (Option Address)}

/-- The row that a request keeps which is answered by default. -/
def defaultRow (k : Kind) (s : Service) (w : World) (conditions : Conditions) (mac : String)
    (caller : Option Address) : Assignment k :=
  ⟨mac, Kind.keyOf
    ((w.store.shelf k).defaultEntry (s.globalEntry (w.answers conditions) k) caller).1⟩

/-- While the requests take turns at most one of their inserts adds a row, and all else stays. -/
structure Booting (s : Service) (w : World) (conditions : Conditions) (mac : String)
    (callers : List (Option Address)) (v : World) (h : List (Write k)) : Prop where
  similar : v.Similar w
  landings : v.landings = []
  rows : (v.store.shelf k).assignments =
    (w.store.shelf k).assignments ++ (h.filter (·.applied)).map (·.row)
  once : (h.filter (·.applied)).length ≤ 1
  writes : ∀ e ∈ h, ∃ i caller, callers[i]? = some caller ∧ e.writer = .request i ∧
    e.row = defaultRow k s w conditions mac caller

namespace Booting
variable {u v : World} {h : List (Write k)}

theorem start (hw : w.landings = []) :
    Booting s w conditions mac callers w ([] : List (Write k)) where
  similar := .refl w
  landings := hw
  rows := by simp
  once := by simp
  writes := nofun

theorem stable : Race.Stable (Booting (k := k) s w conditions mac callers) := fun _ _ _ hv hu =>
  { similar := hu.similar.trans hv.similar
    landings := hu.landings.trans hv.landings
    rows := by rw [hu.store, hv.rows]
    once := hv.once
    writes := hv.writes }

theorem land (hv : Booting s w conditions mac callers v h) (j : Nat) :
    Booting s w conditions mac callers (v.land j) (h ++ v.landingWrites k j) := by
  have hnone : v.landings[j]? = none := by simp [hv.landings]
  have hland : v.land j = v := by rw [World.land, hnone]
  have hwrites : v.landingWrites k j = [] := by rw [World.landingWrites, hnone]
  rw [hland, hwrites, List.append_nil]
  exact hv

theorem row?_eq (hv : Booting s w conditions mac callers v h)
    (hrow : (w.store.shelf k).row? mac = none) :
    (v.store.shelf k).row? mac = (h.filter (·.applied)).head?.map (·.row) := by
  have hnone : (w.store.shelf k).assignments.find? (fun a => a.mac = mac) = none := hrow
  rw [Shelf.row?, hv.rows, List.find?_append, hnone, Option.none_or]
  cases ha : h.filter (·.applied) with
  | nil => rfl
  | cons e rest =>
    have he : e ∈ h := (List.mem_filter.mp (ha ▸ List.mem_cons_self)).1
    obtain ⟨i, caller, -, -, hrow⟩ := hv.writes e he
    simp [hrow, defaultRow]

/-- The row of the device is what some insert added. -/
theorem of_row? (hv : Booting s w conditions mac callers v h)
    (hrow : (w.store.shelf k).row? mac = none) {a : Assignment k}
    (ha : (v.store.shelf k).row? mac = some a) : ∃ e ∈ h, e.applied ∧ e.row = a := by
  rw [hv.row?_eq hrow] at ha
  obtain ⟨e, he, hea⟩ := Option.map_eq_some_iff.mp ha
  have hmem := List.mem_filter.mp (List.mem_of_mem_head? he)
  exact ⟨e, hmem.1, hmem.2, hea⟩

/-- An insert of one of the requests adds its row, or finds that another did. -/
theorem insert (hv : Booting s w conditions mac callers v h) (hc : conditions.Faultless)
    (hrow : (w.store.shelf k).row? mac = none) {i : Nat} {caller : Option Address}
    (hi : callers[i]? = some caller) {a : Except StoreError Unit}
    (ha : v.answer conditions (.insert (defaultRow k s w conditions mac caller)) = (a, u)) :
    let e : Write k := ⟨.request i, .writeBack, defaultRow k s w conditions mac caller,
      conditions.inserts v.store (defaultRow k s w conditions mac caller)⟩
    Booting s w conditions mac callers u (h ++ [e]) ∧
      (WriteBack.ofAnswer a = .inserted ∧ e.applied ∨
        WriteBack.ofAnswer a = .alreadyExists ∧ ∃ b ∈ h, b.applied) := by
  intro e
  have hwrites : ∀ b ∈ h ++ [e], ∃ i caller, callers[i]? = some caller ∧ b.writer = .request i ∧
      b.row = defaultRow k s w conditions mac caller := by
    intro b hb
    rcases List.mem_append.mp hb with hb | hb
    · exact hv.writes b hb
    · rw [List.mem_singleton.mp hb]
      exact ⟨i, caller, hi, rfl, rfl⟩
  rcases World.answer_insert hc ha with ⟨hnone, happlied, rfl, rfl⟩ | ⟨⟨b, hb⟩, happlied, rfl, rfl⟩
  · have hempty : h.filter (·.applied) = [] := by
      have hhead := hv.row?_eq hrow
      rw [show (v.store.shelf k).row? mac = none from hnone] at hhead
      simpa using hhead.symm
    have hfilter : (h ++ [e]).filter (·.applied) = [e] := by
      simp [hempty, e, happlied]
    refine ⟨?_, .inl ⟨rfl, happlied⟩⟩
    have hsimilar := World.similar_withShelf v
      ((v.store.shelf k).withRow (defaultRow k s w conditions mac caller)) rfl rfl
    refine ⟨hsimilar.trans hv.similar, hv.landings, ?_, ?_, hwrites⟩
    · simp [hv.rows, hempty, hfilter, e]
    · simp [hfilter]
  · have hfilter : (h ++ [e]).filter (·.applied) = h.filter (·.applied) := by
      simp [e, happlied]
    obtain ⟨b, hb, happlied, -⟩ := hv.of_row? hrow hb
    refine ⟨?_, .inr ⟨rfl, b, hb, happlied⟩⟩
    exact ⟨hv.similar, hv.landings, by rw [hfilter, hv.rows], by rw [hfilter]; exact hv.once,
      hwrites⟩

end Booting

/-- What a request may come to when `e` is the insert that added the row. -/
inductive Outcome (i : Nat) (own : k.Key) (e : Write k) : Resolution k.Answer → Prop where
  | device {answer : k.Answer} (hi : e.writer ≠ .request i)
      (hkey : Kind.answerKey answer = e.row.key) : Outcome i own e ⟨answer, .device, none⟩
  | inserted {answer : k.Answer} {tier : Tier} (hi : e.writer = .request i)
      (hkey : Kind.answerKey answer = own) : Outcome i own e ⟨answer, tier, some .inserted⟩
  | alreadyExists {answer : k.Answer} {tier : Tier} (hi : e.writer ≠ .request i)
      (hkey : Kind.answerKey answer = own) (htier : tier ≠ .device) :
      Outcome i own e ⟨answer, tier, some .alreadyExists⟩

namespace Outcome
variable {i : Nat} {own : k.Key} {e : Write k} {r : Resolution k.Answer}

theorem of_writer (h : Outcome i own e r) (hi : e.writer = .request i) :
    r.writeBack = some .inserted := by
  cases h with
  | device hne => exact absurd hi hne
  | inserted => rfl
  | alreadyExists hne => exact absurd hi hne

theorem of_other (h : Outcome i own e r) (hi : e.writer ≠ .request i) :
    r.writeBack = some .alreadyExists ∨ r.tier = .device ∧ r.writeBack = none := by
  cases h with
  | device => exact .inr ⟨rfl, rfl⟩
  | inserted heq => exact absurd heq hi
  | alreadyExists => exact .inl rfl

theorem key_of_stored (h : Outcome i own e r) (hown : e.writer = .request i → own = e.row.key)
    (hr : r.writeBack = some .inserted ∨ r.tier = .device) :
    Kind.answerKey r.answer = e.row.key := by
  cases h with
  | device _ hkey => exact hkey
  | inserted heq hkey => exact hkey.trans (hown heq)
  | alreadyExists _ _ htier =>
    rcases hr with hr | hr
    · cases hr
    · exact absurd hr htier

theorem key_of_own (h : Outcome i own e r) (hown : own = e.row.key) :
    Kind.answerKey r.answer = e.row.key := by
  cases h with
  | device _ hkey => exact hkey
  | inserted _ hkey => exact hkey.trans hown
  | alreadyExists _ hkey => exact hkey.trans hown

end Outcome

/-- The request succeeds, and some insert added the row. -/
def Boots (i : Nat) (own : k.Key) (x : Except ServiceError (Resolution k.Answer))
    (t : World × List (Write k)) : Prop :=
  ∃ r, x = .ok r ∧ ∃ e ∈ t.2, e.applied ∧ Outcome i own e r

section
variable (hc : conditions.Faultless) (hrow : (w.store.shelf k).row? mac = none)
  (hsign : k = .image → ∀ signing, ∃ url, w.answers conditions (.presign signing) = .ok url)
  {i : Nat} {t : World × List (Write k)}

/-- The machine of the `i`th request. -/
abbrev bootMachine (s : Service) (w : World) (conditions : Conditions) (mac : String)
    (callers : List (Option Address)) (i : Nat) : Machine (World × List (Write k)) :=
  Race.machine conditions (Booting s w conditions mac callers) False i

include hc hrow in
/-- An entry of its own that a device has is that of the row which was added. -/
theorem safe_deviceEntry (hfresh : Race.Fresh i t.2) :
    ((s.cascade k).deviceEntry (.mac mac)).Safe (bootMachine s w conditions mac callers i)
      (fun x t => Race.Fresh i t.2 ∧ ∃ own : Option (String × k.Entry), x = .ok own ∧
        ∀ entry ∈ own, ∃ e ∈ t.2, e.applied ∧ Kind.keyOf entry.2 = e.row.key) t := by
  have hdevice : (deviceRow k (.mac mac)).Safe (bootMachine s w conditions mac callers i)
      (fun x t => Race.Fresh i t.2 ∧ ∃ (shelf : Shelf k) (row : Option (Assignment k)),
        x = .ok (row.map shelf.hydrate) ∧ ∀ a ∈ row, ∃ e ∈ t.2, e.applied ∧ e.row = a) t := by
    refine Race.safe_deviceRow Booting.stable hc fun v u hv htu hvu => ?_
    refine ⟨hfresh.later htu, v.1.store.shelf k, (v.1.store.shelf k).row? mac, ?_, fun a ha => ?_⟩
    · rw [rowLimit, Shelf.find_mac, Shelf.selectRow_mac]
    · obtain ⟨e, he, hrest⟩ := hv.of_row? hrow ha
      exact ⟨e, Race.mem_of_later hvu he, hrest⟩
  rw [Cascade.deviceEntry_eq]
  refine hdevice.bind ?_ ?_
  · rintro _ u hu ⟨hfresh, shelf, row, ⟨⟩, hadded⟩
    have honly := (only_ofRow s (row.map shelf.hydrate)).mono fun _ => Call.OnObjects.rowless
    refine Race.safe_rowless Booting.stable (fun _ _ hv => hv.similar) honly fun v hv huv => ?_
    refine ⟨hfresh.later huv, _, eval_ofRow s _ row, fun own hown => ?_⟩
    obtain ⟨a, ha, hown⟩ := Option.bind_eq_some_iff.mp hown
    obtain ⟨entry, hentry, rfl⟩ := Option.map_eq_some_iff.mp hown
    obtain ⟨e, he, happlied, rfl⟩ := hadded a ha
    exact ⟨e, Race.mem_of_later huv he, happlied, Shelf.keyOf_of_entryOf hentry⟩
  · rintro x u hu ⟨-, shelf, row, hx, -⟩
    cases hx

include hc hrow hsign in
/-- A request that is answered by default adds the row, or finds that another did. -/
theorem safe_provide {caller : Option Address} (hi : callers[i]? = some caller)
    (hfresh : Race.Fresh i t.2) :
    ((s.cascade k).provide mac
        ((w.store.shelf k).defaultEntry (s.globalEntry (w.answers conditions) k) caller)).Safe
      (bootMachine s w conditions mac callers i)
      (Boots i (defaultRow k s w conditions mac caller).key) t := by
  let chosen := (w.store.shelf k).defaultEntry (s.globalEntry (w.answers conditions) k) caller
  have hdeliver : ((s.cascade k).deliver mac (.mac mac) chosen.1).Safe
      (bootMachine (k := k) s w conditions mac callers i)
      (fun x t => Race.Fresh i t.2 ∧
        x = .ok (s.answer (w.answers conditions) mac (.mac mac) chosen.1)) t :=
    Race.safe_rowless Booting.stable (fun _ _ hv => hv.similar)
      ((only_deliver s mac _ _).mono fun _ => Call.OnObjects.rowless) fun v _ htv =>
        ⟨hfresh.later htv, eval_deliver_ok (signs_of_presign hsign _)⟩
  refine hdeliver.bind ?_ ?_
  · rintro _ u hu ⟨hfresh, ⟨⟩⟩ v hv huv o ⟨v', h'⟩ ho
    rcases Race.keeps_cases ho with ⟨a, ha, rfl, rfl⟩ | ⟨hd, -⟩
    · have hfresh := hfresh.later huv
      obtain ⟨hvalid, houtcome⟩ := Booting.insert hv hc hrow hi ha
      refine ⟨hvalid, fun x _ hx => ⟨_, rfl, ?_⟩⟩
      rcases houtcome with ⟨ho, happlied⟩ | ⟨ho, e, he, happlied⟩
      · refine ⟨_, Race.last_mem_of_later hx, happlied, ?_⟩
        rw [ho]
        exact .inserted rfl (answerKey_answer s _ _ _ _)
      · refine ⟨e, Race.mem_of_later hx (List.mem_append_left _ he), happlied, ?_⟩
        rw [ho]
        exact .alreadyExists (hfresh e he) (answerKey_answer s _ _ _ _)
          (Shelf.defaultEntry_ne_device _ _ _)
    · exact hd.elim
  · rintro _ u hu ⟨-, ⟨⟩⟩

include hc hrow hsign in
theorem safe_resolve {caller : Option Address} (hi : callers[i]? = some caller)
    (hfresh : Race.Fresh i t.2) :
    ((s.cascade k).resolve (.mac mac) caller).Safe (bootMachine s w conditions mac callers i)
      (Boots i (defaultRow k s w conditions mac caller).key) t := by
  rw [Cascade.resolve_mac]
  refine (safe_deviceEntry hc hrow hfresh).bind ?_ ?_
  · rintro own u hu ⟨hfresh, _, ⟨⟩, hown⟩
    cases own with
    | some own =>
      obtain ⟨owner, entry⟩ := own
      obtain ⟨e, he, happlied, hkey⟩ := hown (owner, entry) rfl
      have honly := (only_deliver s owner (.mac mac) entry).mono fun _ => Call.OnObjects.rowless
      refine Race.safe_rowless Booting.stable (fun _ _ hv => hv.similar)
        (honly.bind fun _ => trivial) fun v _ huv => ?_
      rw [Cascade.goOn, Cascade.serve, Plan.eval_bind, eval_deliver_ok (signs_of_presign hsign _)]
      exact ⟨_, rfl, e, Race.mem_of_later huv he, happlied,
        .device (hfresh e he) ((answerKey_answer s _ _ _ _).trans hkey)⟩
    | none =>
      have hdefault : ((s.cascade k).defaultEntry caller).Safe
          (bootMachine (k := k) s w conditions mac callers i)
          (fun x t => Race.Fresh i t.2 ∧ x = .ok
            ((w.store.shelf k).defaultEntry (s.globalEntry (w.answers conditions) k) caller)) u :=
        Race.safe_rowless Booting.stable (fun _ _ hv => hv.similar) (only_defaultEntry s caller)
          fun v _ huv =>
            ⟨hfresh.later huv, eval_defaultEntry s (answers_networkDefault hc w) caller⟩
      refine hdefault.bind ?_ ?_
      · rintro _ v hv ⟨hfresh, ⟨⟩⟩
        exact safe_provide hc hrow hsign hi hfresh
      · rintro _ v hv ⟨-, ⟨⟩⟩
  · rintro _ u hu ⟨-, own, ⟨⟩, -⟩

end

/-- A first boot of a device by several requests: one of them gave it its row, and the others found
it, before their turn to insert or then. -/
structure FirstBoot (w v : World) (mac : String) (callers : List (Option Address))
    (results : List (Resolution k.Answer)) (key : k.Key) : Prop where
  length : results.length = callers.length
  rows : (v.store.shelf k).assignments = (w.store.shelf k).assignments ++ [⟨mac, key⟩]
  one : ∃ (i : Nat) (r : Resolution k.Answer),
    results[i]? = some r ∧ r.writeBack = some .inserted ∧
      ∀ (j : Nat) (r : Resolution k.Answer), j ≠ i → results[j]? = some r →
        r.writeBack = some .alreadyExists ∨ r.tier = .device ∧ r.writeBack = none
  stored : ∀ r ∈ results, r.writeBack = some .inserted ∨ r.tier = .device →
    Kind.answerKey r.answer = key
  same : (∀ c ∈ callers, ∀ c' ∈ callers, c = c') → ∀ r ∈ results, Kind.answerKey r.answer = key

/-- The results of requests that are through, of which one insert added a row. -/
theorem firstBoot_of_boots {v : World} {h : List (Write k)} {results : List (Resolution k.Answer)}
    (hv : Booting s w conditions mac callers v h) (hne : callers ≠ [])
    (hlength : results.length = callers.length)
    (hresults : ∀ i r, results[i]? = some r → ∃ caller, callers[i]? = some caller ∧
      ∃ e ∈ h, e.applied ∧ Outcome i (defaultRow k s w conditions mac caller).key e r) :
    ∃ key, FirstBoot w v mac callers results key := by
  have hget : ∀ i < callers.length, ∃ r, results[i]? = some r := fun i hi =>
    ⟨_, List.getElem?_eq_getElem (hlength ▸ hi)⟩
  obtain ⟨r, hr⟩ := hget 0 (List.length_pos_iff.mpr hne)
  obtain ⟨-, -, e, he, happlied, -⟩ := hresults 0 r hr
  obtain ⟨i, caller, hi, hwriter, hrow⟩ := hv.writes e he
  have hfilter : h.filter (·.applied) = [e] := by
    have hmem : e ∈ h.filter (·.applied) := List.mem_filter.mpr ⟨he, happlied⟩
    obtain ⟨b, hb⟩ := List.length_eq_one_iff.mp
      (Nat.le_antisymm hv.once (List.length_pos_of_mem hmem))
    rw [hb] at hmem ⊢
    rw [List.mem_singleton.mp hmem]
  -- every outcome is about the one insert that added the row
  have houtcome : ∀ j r, results[j]? = some r → ∃ c, callers[j]? = some c ∧
      Outcome j (defaultRow k s w conditions mac c).key e r := by
    intro j r hr
    obtain ⟨c, hcaller, b, hb, hbapplied, ho⟩ := hresults j r hr
    have hmem : b ∈ h.filter (·.applied) := List.mem_filter.mpr ⟨hb, hbapplied⟩
    rw [hfilter, List.mem_singleton] at hmem
    exact ⟨c, hcaller, hmem ▸ ho⟩
  have hkey : (defaultRow k s w conditions mac caller).key = e.row.key := by rw [hrow]
  refine ⟨e.row.key, hlength, ?_, ?_, ?_, ?_⟩
  · rw [hv.rows, hfilter, List.map_singleton, hrow]
    rfl
  · obtain ⟨r, hr⟩ := hget i (List.getElem?_eq_some_iff.mp hi).1
    obtain ⟨_, -, ho⟩ := houtcome i r hr
    refine ⟨i, r, hr, ho.of_writer hwriter, fun j r hj hr => ?_⟩
    obtain ⟨_, -, ho⟩ := houtcome j r hr
    exact ho.of_other fun heq => hj (Writer.request.inj (heq.symm.trans hwriter))
  · intro r hr
    obtain ⟨j, hj⟩ := List.getElem?_of_mem hr
    obtain ⟨c, hcaller, ho⟩ := houtcome j r hj
    refine ho.key_of_stored fun heq => ?_
    obtain rfl : i = j := Writer.request.inj (hwriter.symm.trans heq)
    obtain rfl : caller = c := Option.some.inj (hi.symm.trans hcaller)
    exact hkey
  · intro hsame r hr
    obtain ⟨j, hj⟩ := List.getElem?_of_mem hr
    obtain ⟨c, hcaller, ho⟩ := houtcome j r hj
    obtain rfl : caller = c :=
      hsame caller (List.mem_of_getElem? hi) c (List.mem_of_getElem? hcaller)
    exact ho.key_of_own hkey

/-- However many requests for a device without a row take turns, call by call and in any order: they
all come through, one of them gives the device its row, and what the others answer fits it. -/
theorem first_boot_race (s : Service) (w : World) (conditions : Conditions) (mac : String)
    (callers : List (Option Address)) (moves : List Nat) (hne : callers ≠ [])
    (hrow : (w.store.shelf k).row? mac = none) (hw : w.landings = [])
    (hc : conditions.Faultless)
    (hsign : k = .image → ∀ signing, ∃ url, w.answers conditions (.presign signing) = .ok url) :
    let race : Race ServiceError (Resolution k.Answer) :=
      ⟨w, callers.map fun caller => (s.cascade k).resolve (.mac mac) caller⟩
    let final := race.play conditions (moves.map .advance)
    ((∀ i < callers.length, callLimit ≤ moves.count i) → final.Finished) ∧
    (final.Finished → ∃ results key, final.plans = results.map .done ∧
      FirstBoot w final.world mac callers results key) := by
  intro race final
  have hsafe : race.Safe conditions (Booting s w conditions mac callers) False
      (fun i x t => ∃ caller, callers[i]? = some caller ∧
        Boots i (defaultRow k s w conditions mac caller).key x t) [] := by
    refine ⟨.start hw, fun i p hp => ?_⟩
    rw [List.getElem?_map] at hp
    obtain ⟨caller, hcaller, rfl⟩ := Option.map_eq_some_iff.mp hp
    exact (safe_resolve hc hrow hsign hcaller (Race.fresh_nil i)).weaken
      fun x t _ hx => ⟨caller, hcaller, hx⟩
  let h := race.history k conditions (moves.map .advance)
  have hfinal : final.Safe conditions (Booting s w conditions mac callers) False
      (fun i x t => ∃ caller, callers[i]? = some caller ∧
        Boots i (defaultRow k s w conditions mac caller).key x t) h :=
    hsafe.play (fun v h j hv => hv.land j) fun i hi => by simp at hi
  constructor
  · intro hmoves
    have hwithin : race.Within fun _ => callLimit := by
      intro i p hp
      rw [List.getElem?_map] at hp
      obtain ⟨caller, -, rfl⟩ := Option.map_eq_some_iff.mp hp
      exact within_resolve s (.mac mac) caller
    exact Race.finished_of_within hwithin conditions fun i hi =>
      hmoves i (by simpa [race] using hi)
  · intro hfinished
    obtain ⟨results, hresults⟩ := hfinished.exists_results fun p hp x hx => by
      obtain ⟨i, hi⟩ := List.getElem?_of_mem hp
      obtain ⟨caller, -, r, hr, -⟩ := hfinal.result hi hx
      exact ⟨r, hr⟩
    have hlength : results.length = callers.length := by
      have hplans : final.plans.length = (results.map Plan.done).length := congrArg _ hresults
      rw [Race.length_play] at hplans
      simpa [race] using hplans.symm
    have houtcome : ∀ i r, results[i]? = some r → ∃ caller, callers[i]? = some caller ∧
        ∃ e ∈ h, e.applied ∧ Outcome i (defaultRow k s w conditions mac caller).key e r := by
      intro i r hr
      have hp : final.plans[i]? = some (.done r) := by rw [hresults, List.getElem?_map, hr]; rfl
      obtain ⟨caller, hcaller, r', hr', hrest⟩ := hfinal.result hp rfl
      cases hr'
      exact ⟨caller, hcaller, hrest⟩
    obtain ⟨key, hkey⟩ := firstBoot_of_boots hfinal.world hne hlength houtcome
    exact ⟨results, key, hresults, hkey⟩

theorem first_boot_race_two :
    let callers : List (Option Address) := [Address.parse? "10.7.0.5", none]
    let moves : List Nat := (List.replicate callLimit [0, 1]).flatten
    let race : Race ServiceError (Resolution AssignedPayload) :=
      ⟨{}, callers.map fun caller => (ofConfig {}).payloads.resolve (.mac "aabbccddeeff") caller⟩
    let final := race.play {} (moves.map .advance)
    callers ≠ [] ∧ race.world.store.payloads.row? "aabbccddeeff" = none ∧
      race.world.landings = [] ∧ Conditions.Faultless {} ∧
      (∀ signing, ∃ url, race.world.answers {} (.presign signing) = .ok url) ∧
      (∀ i < callers.length, callLimit ≤ moves.count i) ∧ final.Finished ∧
      ∃ results key, final.plans = results.map .done ∧
        FirstBoot (k := .payload) race.world final.world "aabbccddeeff" callers results key := by
  intro callers moves race final
  have hne : callers ≠ [] := nofun
  have hc : Conditions.Faultless {} := fun _ _ => rfl
  have hsign (signing : Signing) : ∃ url, race.world.answers {} (.presign signing) = .ok url :=
    ⟨_, rfl⟩
  have hmoves : ∀ i < callers.length, callLimit ≤ moves.count i := by decide
  obtain ⟨hthrough, hresults⟩ :=
    first_boot_race (k := .payload) (ofConfig {}) {} {} "aabbccddeeff" callers moves hne rfl rfl hc
      fun _ => hsign
  have hfinished : final.Finished := hthrough hmoves
  exact ⟨hne, rfl, rfl, hc, hsign, hmoves, hfinished, hresults hfinished⟩

end FleetBoot.Service
