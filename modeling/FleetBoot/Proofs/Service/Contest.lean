import FleetBoot.Proofs.Race.Calls
import FleetBoot.Proofs.Race.Rows
import FleetBoot.Proofs.Service.Candidate
import Mathlib

/-! Resolutions and assignments of one device, in any order of their calls. What the device was
given last by an assignment stays. -/
namespace FleetBoot

/-- The identity is the address, or a token that can match the row of no other device. -/
def Shelf.Names {k : Kind} (shelf : Shelf k) (mac : String) : Identity → Prop
  | .mac address => address = mac
  | .hostname token suffix => ∀ row ∈ shelf.assignments,
      (Identity.hostname token suffix).finds row.mac →
        (Identity.hostname token suffix).selects row.mac → row.mac = mac

/-- A request about one device for one kind. -/
inductive DeviceRequest (k : Kind) where
  | resolve (raw : String) (caller : Option Address)
  | assign (raw : String) (key : k.Key)

namespace DeviceRequest
variable {k : Kind}

/-- The calls of the request, without what it answers. -/
def plan (s : Service) : DeviceRequest k → Plan ServiceError Unit
  | .resolve raw caller => (fun _ => ()) <$> s.resolve raw caller k
  | .assign raw key => Service.assign raw key

/-- The request is about this device. A resolution has its address, and an assignment may have a
token instead. -/
def Concerns (shelf : Shelf k) (mac : String) : DeviceRequest k → Prop
  | .resolve raw _ => Identity.normalize raw = .ok (.mac mac)
  | .assign raw _ => ∃ identity, Identity.normalize raw = .ok identity ∧ shelf.Names mac identity

end DeviceRequest

/-- The rows and the writes of requests about one device: rows of others are as they were, and the
device's own row is what the last assignment that was carried out made it. -/
structure Contested {k : Kind} (initial : Shelf k) (mac : String)
    (requests : List (DeviceRequest k)) (shelf : Shelf k) (h : List (Write k)) : Prop where
  others : ∀ row ∈ shelf.assignments, row.mac ≠ mac → row ∈ initial.assignments
  writes : ∀ e ∈ h, e.row.mac = mac
  assigned : ∀ e ∈ h, e.assigns → ∃ i raw key, requests[i]? = some (.assign raw key) ∧
    e.writer = .request i ∧ e.row = ⟨mac, Kind.trimKey key⟩
  vacant : shelf.row? mac = none ↔ initial.row? mac = none ∧ ∀ e ∈ h, ¬ e.creates
  last : ∀ e, (h.filter Write.assigns).getLast? = some e → shelf.row? mac = some e.row

namespace Contested
variable {k : Kind} {initial shelf : Shelf k} {mac : String} {requests : List (DeviceRequest k)}
  {h : List (Write k)} {e : Write k}

theorem start (initial : Shelf k) (mac : String) (requests : List (DeviceRequest k)) :
    Contested initial mac requests initial [] where
  others row hrow _ := hrow
  writes := nofun
  assigned := nofun
  vacant := by simp
  last := nofun

theorem writes_append (hv : Contested initial mac requests shelf h) (hmac : e.row.mac = mac) :
    ∀ a ∈ h ++ [e], a.row.mac = mac := by
  intro a ha
  rcases List.mem_append.mp ha with ha | ha
  · exact hv.writes a ha
  · rw [List.mem_singleton.mp ha, hmac]

theorem assigned_append (hv : Contested initial mac requests shelf h)
    (hassigned : e.assigns → ∃ i raw key, requests[i]? = some (.assign raw key) ∧
      e.writer = .request i ∧ e.row = ⟨mac, Kind.trimKey key⟩) :
    ∀ a ∈ h ++ [e], a.assigns → ∃ i raw key, requests[i]? = some (.assign raw key) ∧
      a.writer = .request i ∧ a.row = ⟨mac, Kind.trimKey key⟩ := by
  intro a ha
  rcases List.mem_append.mp ha with ha | ha
  · exact hv.assigned a ha
  · rw [List.mem_singleton.mp ha]
    exact hassigned

/-- A write that changes nothing. -/
theorem refused (hv : Contested initial mac requests shelf h) (hmac : e.row.mac = mac)
    (happlied : e.applied = false) : Contested initial mac requests shelf (h ++ [e]) where
  others := hv.others
  writes := hv.writes_append hmac
  assigned := hv.assigned_append (by simp [Write.assigns, happlied])
  vacant := by
    rw [hv.vacant]
    simp [Write.creates, happlied, or_imp, forall_and]
  last a ha := by
    have hfilter : (h ++ [e]).filter Write.assigns = h.filter Write.assigns := by
      simp [Write.assigns, happlied]
    rw [hfilter] at ha
    exact hv.last a ha

/-- An insert that adds the device's row. -/
theorem added (hv : Contested initial mac requests shelf h) (hnone : shelf.row? mac = none)
    (hmac : e.row.mac = mac) (happlied : e.applied = true) (hm : e.manner ≠ .update)
    (hassigned : e.assigns → ∃ i raw key, requests[i]? = some (.assign raw key) ∧
      e.writer = .request i ∧ e.row = ⟨mac, Kind.trimKey key⟩) :
    Contested initial mac requests (shelf.withRow e.row) (h ++ [e]) := by
  have hrow : (shelf.withRow e.row).row? mac = some e.row := by
    rw [Shelf.row?_withRow (hmac ▸ hnone), if_pos hmac]
  refine ⟨?_, hv.writes_append hmac, hv.assigned_append hassigned, ?_, ?_⟩
  · intro row hmem hne
    rcases List.mem_append.mp hmem with hmem | hmem
    · exact hv.others row hmem hne
    · rw [List.mem_singleton.mp hmem] at hne
      exact absurd hmac hne
  · have hcreates : e.creates := by simp [Write.creates, happlied, hm]
    simp [hrow, hcreates]
  · intro a ha
    by_cases hassigns : e.assigns
    · rw [List.filter_append] at ha
      simp [hassigns] at ha
      rw [hrow, ha]
    · have hfilter : (h ++ [e]).filter Write.assigns = h.filter Write.assigns := by
        simp [hassigns]
      rw [hfilter] at ha
      rw [hv.last a ha] at hnone
      cases hnone

/-- An update of the device's row. -/
theorem changed (hv : Contested initial mac requests shelf h) {a : Assignment k}
    (hsome : shelf.row? mac = some a) (hmac : e.row.mac = mac) (happlied : e.applied = true)
    (hm : e.manner = .update)
    (hassigned : ∃ i raw key, requests[i]? = some (.assign raw key) ∧
      e.writer = .request i ∧ e.row = ⟨mac, Kind.trimKey key⟩) :
    Contested initial mac requests (shelf.update e.row).2 (h ++ [e]) := by
  have hrow : (shelf.update e.row).2.row? mac = some e.row :=
    hmac ▸ Shelf.row?_update_self (hmac ▸ hsome)
  refine ⟨?_, hv.writes_append hmac, hv.assigned_append fun _ => hassigned, ?_, ?_⟩
  · intro row hmem hne
    rcases Shelf.mem_update hmem with rfl | hmem
    · exact absurd hmac hne
    · exact hv.others row hmem hne
  · refine ⟨fun hnone => ?_, fun ⟨hinitial, hcreates⟩ => ?_⟩
    · rw [hrow] at hnone
      cases hnone
    · have hnone := hv.vacant.mpr
        ⟨hinitial, fun b hb => hcreates b (List.mem_append_left _ hb)⟩
      rw [hsome] at hnone
      cases hnone
  · intro b hb
    have hassigns : e.assigns := by simp [Write.assigns, happlied, hm]
    rw [List.filter_append] at hb
    simp [hassigns] at hb
    rw [hrow, hb]

end Contested

/-- What holds at all times while the requests take turns. All inserts to come are the device's. -/
structure Contest {k : Kind} (w : World) (mac : String) (requests : List (DeviceRequest k))
    (v : World) (h : List (Write k)) : Prop where
  rows : Contested (w.store.shelf k) mac requests (v.store.shelf k) h
  landings : ∀ l ∈ v.landings, ∃ (key : k.Key) (due : Nat), l = ⟨k, ⟨mac, key⟩, due⟩

namespace Contest
variable {k : Kind} {u v w : World} {mac : String} {requests : List (DeviceRequest k)}
  {h : List (Write k)} {conditions : Conditions}

theorem start (hw : w.landings = []) : Contest w mac requests w [] where
  rows := .start _ mac requests
  landings := by simp [hw]

theorem stable : Race.Stable (Contest w mac requests (k := k)) := fun _ _ _ hv hu =>
  { rows := hu.store ▸ hv.rows
    landings := hu.landings ▸ hv.landings }

theorem detach (hv : Contest w mac requests v h) (key : k.Key) (due : Nat) :
    Contest w mac requests
      { v with landings := v.landings ++ [⟨k, ⟨mac, key⟩, due⟩] } h where
  rows := hv.rows
  landings l hl := by
    rcases List.mem_append.mp hl with hl | hl
    · exact hv.landings l hl
    · exact ⟨key, due, List.mem_singleton.mp hl⟩

/-- An insert of a row of the device, by a request or by nobody. -/
theorem insert (hv : Contest w mac requests v h) (hc : conditions.Faultless) (writer : Writer)
    {m : Manner} (hm : m ≠ .update) {row : Assignment k} (hmac : row.mac = mac)
    (hassigned : m = .insert → ∃ i raw key, requests[i]? = some (.assign raw key) ∧
      writer = .request i ∧ row = ⟨mac, Kind.trimKey key⟩)
    {a : Except StoreError Unit} (ha : v.answer conditions (.insert row) = (a, u)) :
    Contest w mac requests u (h ++ [⟨writer, m, row, conditions.inserts v.store row⟩]) ∧
      (a = .ok () ∧ conditions.inserts v.store row = true ∨
        a = .error (.occupied (.assignments k)) ∧ conditions.inserts v.store row = false ∧
          (v.store.shelf k).row? mac ≠ none) := by
  rcases World.answer_insert hc ha with ⟨hnone, happlied, rfl, rfl⟩ | ⟨⟨b, hb⟩, happlied, rfl, rfl⟩
  · rw [happlied]
    refine ⟨⟨?_, hv.landings⟩, .inl ⟨rfl, rfl⟩⟩
    rw [Store.shelf_withShelf]
    refine hv.rows.added (e := ⟨writer, m, row, true⟩) (hmac ▸ hnone) hmac rfl hm fun he => ?_
    cases m with
    | update => exact absurd rfl hm
    | insert => exact hassigned rfl
    | writeBack => cases he
  · rw [happlied]
    refine ⟨⟨hv.rows.refused hmac rfl, hv.landings⟩, .inr ⟨rfl, rfl, ?_⟩⟩
    rw [← hmac, hb]
    exact nofun

/-- An update by an assignment. -/
theorem update (hv : Contest w mac requests v h) (hc : conditions.Faultless) {i : Nat}
    {raw : String} {key : k.Key} (hi : requests[i]? = some (.assign raw key))
    {row : Assignment k} (hrow : row = ⟨mac, Kind.trimKey key⟩)
    {a : Except StoreError Nat} (ha : v.answer conditions (.update row) = (a, u)) :
    Contest w mac requests u (h ++ [⟨.request i, .update, row, conditions.updates v.store row⟩]) ∧
      ((∃ n, 0 < n ∧ a = .ok n) ∧ conditions.updates v.store row = true ∨
        a = .ok 0 ∧ conditions.updates v.store row = false ∧
          (v.store.shelf k).row? mac = none) := by
  have hmac : row.mac = mac := by rw [hrow]
  rcases World.answer_update hc ha with
    ⟨hnone, happlied, rfl, rfl⟩ | ⟨⟨b, hb⟩, happlied, hn, rfl⟩
  · rw [happlied]
    exact ⟨⟨hv.rows.refused hmac rfl, hv.landings⟩, .inr ⟨rfl, rfl, hmac ▸ hnone⟩⟩
  · rw [happlied]
    refine ⟨⟨?_, hv.landings⟩, .inl ⟨hn, rfl⟩⟩
    rw [Store.shelf_update]
    exact hv.rows.changed (e := ⟨.request i, .update, row, true⟩) (hmac ▸ hb) hmac rfl rfl
      ⟨i, raw, key, hi, rfl, hrow⟩

theorem land (hv : Contest w mac requests v h) (j : Nat) :
    Contest w mac requests (v.land j) (h ++ v.landingWrites k j) := by
  unfold World.land World.landingWrites
  cases hl : v.landings[j]? with
  | none => simpa using hv
  | some l =>
    obtain ⟨key, due, rfl⟩ := hv.landings l (List.mem_of_getElem? hl)
    have hlandings : ∀ l ∈ v.landings.eraseIdx j, ∃ (key : k.Key) (due : Nat),
        l = ⟨k, ⟨mac, key⟩, due⟩ := fun l hl => hv.landings l (List.mem_of_mem_eraseIdx hl)
    dsimp only
    rw [Write.once_self, Store.land]
    rcases v.store.insert_cases (⟨mac, key⟩ : Assignment k) with ⟨hnone, hi⟩ | ⟨-, hi⟩
    · rw [hi]
      refine ⟨?_, hlandings⟩
      rw [Store.shelf_withShelf]
      exact hv.rows.added (e := ⟨.landing, .writeBack, ⟨mac, key⟩, true⟩) hnone rfl rfl (by simp)
        (by simp [Write.assigns])
    · rw [hi]
      exact ⟨hv.rows.refused rfl rfl, hlandings⟩

end Contest

variable {k : Kind}

/-- Between an update that changed nothing and an insert that was refused somebody else added the
row. -/
def Overtaken (i : Nat) (row : Assignment k) (h : List (Write k)) : Prop :=
  ∃ before between after, h = before ++ ⟨.request i, .update, row, false⟩ :: between ++
      ⟨.request i, .insert, row, false⟩ :: after ∧
    ∃ e ∈ between, e.creates ∧ e.row.mac = row.mac ∧ e.writer ≠ .request i

/-- An assignment that succeeds has written its row, and one that conflicts was overtaken. -/
def Assigned (i : Nat) (row : Assignment k) (x : Except ServiceError Unit)
    (t : World × List (Write k)) : Prop :=
  match x with
  | .ok _ => ∃ e ∈ t.2, e.writer = .request i ∧ e.assigns ∧ e.row = row
  | .error cause => cause.isConflict → Overtaken i row t.2

theorem Calm.assigned {α : Type} {good : α → Prop} {cause : ServiceError}
    (h : Calm good (.error cause)) (i : Nat) (row : Assignment k) (t : World × List (Write k)) :
    Assigned i row (.error cause) t := by
  intro hconflict
  rw [show cause.isConflict = false from h] at hconflict
  cases hconflict

/-- The update of the `i`th request has found no row. -/
def Pending (initial : Shelf k) (i : Nat) (row : Assignment k) (h : List (Write k)) : Prop :=
  initial.row? row.mac = none ∧ ∃ before between,
    h = before ++ ⟨.request i, .update, row, false⟩ :: between ∧ (∀ e ∈ before, ¬ e.creates) ∧
      Race.Fresh i between

theorem Pending.later {initial : Shelf k} {i : Nat} {row : Assignment k}
    {conditions : Conditions} {valid : World → List (Write k) → Prop} {detaching : Prop}
    {s t : World × List (Write k)} (h : Pending initial i row s.2)
    (hst : (Race.machine conditions valid detaching i).Later s t) :
    Pending initial i row t.2 := by
  obtain ⟨hinitial, before, between, hs, hbefore, hbetween⟩ := h
  obtain ⟨new, ht, hnew⟩ := hst
  refine ⟨hinitial, before, between ++ new, by simp [ht, hs], hbefore, fun e he => ?_⟩
  rcases List.mem_append.mp he with he | he
  · exact hbetween e he
  · exact hnew e he

namespace Contest
variable {w : World} {mac : String} {requests : List (DeviceRequest k)} {conditions : Conditions}
  {i : Nat} {t : World × List (Write k)} {raw : String} {key : k.Key}

/-- A row that was added while a request was pending came from another one. -/
theorem overtaken {v : World} {h : List (Write k)} {row : Assignment k} (hmac : row.mac = mac)
    (hv : Contest w mac requests v h) (hp : Pending (w.store.shelf k) i row h)
    (hsome : (v.store.shelf k).row? mac ≠ none) (after : List (Write k)) :
    Overtaken i row (h ++ ⟨.request i, .insert, row, false⟩ :: after) := by
  obtain ⟨hinitial, before, between, rfl, hbefore, hbetween⟩ := hp
  refine ⟨before, between, after, by simp, ?_⟩
  have hcreated : ¬ ∀ e ∈ between, ¬ e.creates := by
    intro hnone
    refine hsome (hv.rows.vacant.mpr ⟨hmac ▸ hinitial, fun e he => ?_⟩)
    rcases List.mem_append.mp he with he | he
    · exact hbefore e he
    · rcases List.mem_cons.mp he with rfl | he
      · simp [Write.creates]
      · exact hnone e he
  obtain ⟨e, he, hcreates⟩ : ∃ e ∈ between, e.creates := by simpa using hcreated
  refine ⟨e, he, hcreates, ?_, hbetween e he⟩
  rw [hmac]
  exact hv.rows.writes e (List.mem_append_right _ (List.mem_cons_of_mem _ he))

/-- The machine of the `i`th request, which may go on without its write-back. -/
abbrev machine (w : World) (mac : String) (requests : List (DeviceRequest k))
    (conditions : Conditions) (i : Nat) : Machine (World × List (Write k)) :=
  Race.machine conditions (Contest w mac requests) True i

theorem safe_insertRow (hc : conditions.Faultless) (hi : requests[i]? = some (.assign raw key))
    {row : Assignment k} (hrow : row = ⟨mac, Kind.trimKey key⟩)
    (hp : Pending (w.store.shelf k) i row t.2) :
    (Service.insertRow row).Safe (machine w mac requests conditions i) (Assigned i row) t := by
  rintro v hv htv a ⟨u, h⟩ hanswers
  obtain ⟨ha, rfl⟩ := Race.answers_insert hanswers
  have hmac : row.mac = mac := by rw [hrow]
  obtain ⟨hvalid, hcases⟩ := hv.insert hc (.request i) (m := .insert) (by decide) hmac
    (fun _ => ⟨i, raw, key, hi, rfl, hrow⟩) ha
  refine ⟨hvalid, ?_⟩
  rcases hcases with ⟨rfl, happlied⟩ | ⟨rfl, happlied, hsome⟩
  · rw [happlied]
    exact fun x _ hx => ⟨_, Race.last_mem_of_later hx, rfl, rfl, rfl⟩
  · rw [happlied]
    rintro x _ ⟨new, hx, -⟩ -
    rw [hx, List.append_assoc]
    exact hv.overtaken hmac (hp.later htv) hsome new

theorem safe_write (hc : conditions.Faultless) (hi : requests[i]? = some (.assign raw key))
    {row : Assignment k} (hrow : row = ⟨mac, Kind.trimKey key⟩) (identity : Identity) :
    (Service.write identity row).Safe (machine w mac requests conditions i) (Assigned i row) t := by
  have hupdate : (Plan.request (.update row)).Safe (machine w mac requests conditions i)
      (fun x t => (∃ n, x = .ok n ∧ 0 < n ∧ Assigned i row (.ok ()) t) ∨
        x = .ok 0 ∧ Pending (w.store.shelf k) i row t.2) t := by
    rintro v hv htv a ⟨u, h⟩ hanswers
    obtain ⟨ha, rfl⟩ := Race.answers_update hanswers
    obtain ⟨hvalid, hcases⟩ := hv.update hc hi hrow ha
    refine ⟨hvalid, ?_⟩
    rcases hcases with ⟨⟨n, hpos, rfl⟩, happlied⟩ | ⟨rfl, happlied, hnone⟩
    · rw [happlied]
      exact fun x _ hx => .inl ⟨n, rfl, hpos, _, Race.last_mem_of_later hx, rfl, rfl, rfl⟩
    · rw [happlied]
      obtain ⟨hinitial, hcreates⟩ := hv.rows.vacant.mp hnone
      have hp : Pending (w.store.shelf k) i row (v.2 ++ [⟨.request i, .update, row, false⟩]) :=
        ⟨by rw [hrow, hinitial], v.2, [], rfl, hcreates, Race.fresh_nil i⟩
      exact fun x _ hx => .inr ⟨rfl, hp.later hx⟩
  unfold Service.write
  refine hupdate.bind ?_ ?_
  · rintro changed u hu (⟨n, hn, hpos, hassigned⟩ | ⟨hn, hp⟩)
    · cases hn
      rw [if_pos hpos]
      obtain ⟨e, he, hrest⟩ := hassigned
      exact fun x _ hx => ⟨e, Race.mem_of_later hx he, hrest⟩
    · cases hn
      rw [if_neg (Nat.lt_irrefl 0)]
      cases identity with
      | mac address => exact safe_insertRow hc hi hrow hp
      | hostname token suffix => exact fun x _ _ hconflict => by cases hconflict
  · rintro cause u hu (⟨n, hn, -⟩ | ⟨hn, -⟩)
    · cases hn
    · cases hn

theorem safe_owner (hc : conditions.Faultless) {identity : Identity}
    (hnames : (w.store.shelf k).Names mac identity) :
    (Service.owner k identity).Safe (machine w mac requests conditions i)
      (fun x _ => Calm (fun a => a = mac) x) t := by
  cases identity with
  | mac address => exact fun _ _ _ => hnames
  | hostname token suffix =>
    have hrow : (deviceRow k (.hostname token suffix)).Safe (machine w mac requests conditions i)
        (fun x _ => Calm (fun row => ∀ r ∈ row, r.row.mac = mac) x) t := by
      refine Race.safe_deviceRow Contest.stable hc fun v u hv _ _ => ?_
      refine (selectRow_calm _ _).mono fun row hrow r hr => ?_
      obtain ⟨hfound, hselects⟩ := hrow r hr
      obtain ⟨hmem, hfinds⟩ := Shelf.mem_find hfound
      by_cases hmac : r.row.mac = mac
      · exact hmac
      · exact hnames r.row (hv.rows.others r.row hmem hmac) hfinds hselects
    refine hrow.bind ?_ fun e u _ he => he
    intro row u _ hmac
    cases row with
    | none => exact fun _ _ _ => rfl
    | some r => exact fun _ _ _ => hmac r rfl

theorem safe_assign (hc : conditions.Faultless) (hi : requests[i]? = some (.assign raw key))
    {identity : Identity} (hraw : Identity.normalize raw = .ok identity)
    (hnames : (w.store.shelf k).Names mac identity) :
    (Service.assign raw key).Safe (machine w mac requests conditions i)
      (Assigned i ⟨mac, Kind.trimKey key⟩) t := by
  have hcandidate : (Service.candidate key).Safe (machine w mac requests conditions i)
      (fun x _ => Calm (fun found => found = Kind.trimKey key) x) t :=
    Race.safe_reads Contest.stable (Service.only_candidate key)
      (Service.ends_candidate key) fun x u hx _ _ => hx
  rw [Service.assign_eq hraw]
  refine hcandidate.bind ?_ fun e u _ he => Calm.assigned he i _ u
  rintro _ u _ rfl
  refine (safe_owner hc hnames).bind ?_ fun e u _ he => Calm.assigned he i _ u
  rintro _ u _ rfl
  exact safe_write hc hi rfl identity

theorem safe_reading {α : Type} {p : Plan ServiceError α} (hp : p.Only Call.Reads) :
    p.Safe (machine w mac requests conditions i) (fun _ _ => True) t := by
  have hends : p.Ends (fun _ => True) := Plan.ends_of_forall (fun _ => trivial) p
  exact Race.safe_reads Contest.stable hp hends fun _ _ _ _ _ => trivial

theorem safe_provide (hc : conditions.Faultless) (s : Service) (chosen : k.Entry × Tier) :
    ((s.cascade k).provide mac chosen).Safe (machine w mac requests conditions i)
      (fun _ _ => True) t := by
  have hdeliver := Service.only_deliver (k := k) s mac (.mac mac) chosen.1
  refine (safe_reading (hdeliver.mono fun _ => Call.OnObjects.reads)).bind ?_ fun _ _ _ h => h
  rintro answer u - - v hv - o ⟨x, h⟩ ho
  refine ⟨?_, fun _ _ _ => trivial⟩
  rcases Race.keeps_cases ho with ⟨a, ha, -, rfl⟩ | ⟨-, -, rfl, rfl⟩
  · exact (hv.insert hc (.request i) (m := .writeBack) (by decide) rfl nofun ha).1
  · exact hv.detach (Kind.keyOf chosen.1) v.1.now

theorem safe_resolve (hc : conditions.Faultless) (s : Service) (caller : Option Address) :
    ((s.cascade k).resolve (.mac mac) caller).Safe (machine w mac requests conditions i)
      (fun _ _ => True) t := by
  rw [Cascade.resolve_mac]
  refine (safe_reading (Service.only_deviceEntry s (.mac mac))).bind ?_ fun _ _ _ h => h
  rintro own u - -
  cases own with
  | some own =>
    have hdeliver := Service.only_deliver (k := k) s own.1 (.mac mac) own.2
    exact safe_reading ((hdeliver.mono fun _ => Call.OnObjects.reads).bind fun _ => trivial)
  | none =>
    have hdefault := Service.only_defaultEntry (k := k) s caller
    refine (safe_reading (hdefault.mono fun _ => Call.Rowless.reads)).bind ?_ fun _ _ _ h => h
    exact fun chosen _ _ _ => safe_provide hc s chosen

theorem safe_plan (hc : conditions.Faultless) (s : Service) {q : DeviceRequest k}
    (hi : requests[i]? = some q) (hq : q.Concerns (w.store.shelf k) mac) :
    (q.plan s).Safe (machine w mac requests conditions i)
      (fun x t => ∀ raw key, requests[i]? = some (.assign raw key) →
        Assigned i ⟨mac, Kind.trimKey key⟩ x t) t := by
  cases q with
  | assign raw key =>
    obtain ⟨identity, hraw, hnames⟩ := hq
    refine (safe_assign hc hi hraw hnames).weaken fun x u _ hx raw' key' hi' => ?_
    cases hi.symm.trans hi'
    exact hx
  | resolve raw caller =>
    have hcascade : (s.resolve raw caller k).Safe (machine w mac requests conditions i)
        (fun _ _ => True) t := by
      rw [Service.resolve_of_normalize hq, Plan.map_eq]
      exact (safe_resolve hc s caller).bind (fun _ _ _ _ _ _ _ => trivial) fun _ _ _ h => h
    have hno {x : Except ServiceError Unit} {u : World × List (Write k)} :
        ∀ raw key, requests[i]? = some (.assign raw key) →
          Assigned i ⟨mac, Kind.trimKey key⟩ x u := by
      intro raw' key' hi'
      cases hi.symm.trans hi'
    rw [DeviceRequest.plan, Plan.map_eq]
    exact hcascade.bind (fun _ _ _ _ _ _ _ => hno) fun _ _ _ _ => hno

end Contest

/-- What requests about one device leave of its assignments: a write-back leaves all rows as they
are, an assignment that succeeds has written what was asked for, the last one that was written
stays, and only one that was overtaken conflicts. -/
structure AssignmentsStay (conditions : Conditions) (mac : String)
    (requests : List (DeviceRequest k)) (race : Race ServiceError Unit) (moves : List Race.Move) :
    Prop where
  writeBacks : ∀ before v after, moves = before ++ v :: after →
    ∀ e ∈ (race.play conditions before).writes k conditions v, e.manner = .writeBack →
      (race.play conditions before).world.rows k <+:
        ((race.play conditions before).move conditions v).world.rows k
  written : ∀ (i : Nat) raw key, requests[i]? = some (.assign raw key) →
    (race.play conditions moves).plans[i]? = some (.done ()) →
      ∃ e ∈ race.history k conditions moves, e.writer = .request i ∧ e.assigns ∧
        e.row = ⟨mac, Kind.trimKey key⟩
  last : (∃ (i : Nat) (raw : String) (key : k.Key), requests[i]? = some (.assign raw key) ∧
      (race.play conditions moves).plans[i]? = some (.done ())) →
    ∃ e, ((race.history k conditions moves).filter Write.assigns).getLast? = some e ∧
      ((race.play conditions moves).world.store.shelf k).row? mac = some e.row ∧
      ∃ (i : Nat) (raw : String) (key : k.Key), requests[i]? = some (.assign raw key) ∧
        e.writer = .request i ∧ e.row = ⟨mac, Kind.trimKey key⟩
  conflict : ∀ (i : Nat) raw key cause, requests[i]? = some (.assign raw key) →
    (race.play conditions moves).plans[i]? = some (.fail cause) → cause.isConflict →
      Overtaken i ⟨mac, Kind.trimKey key⟩ (race.history k conditions moves)

/-- Whatever the order of the calls of requests about one device, and whenever their write-backs
land that nobody waits for, its assignments stay. -/
theorem assignments_stay (s : Service) (w : World) (conditions : Conditions) (mac : String)
    (requests : List (DeviceRequest k)) (moves : List Race.Move)
    (hrequests : ∀ q ∈ requests, q.Concerns (w.store.shelf k) mac) (hw : w.landings = [])
    (hc : conditions.Faultless) :
    AssignmentsStay conditions mac requests ⟨w, requests.map (DeviceRequest.plan s)⟩ moves := by
  let race : Race ServiceError Unit := ⟨w, requests.map (DeviceRequest.plan s)⟩
  let h := race.history k conditions moves
  have hsafe : race.Safe conditions (Contest w mac requests) True
      (fun i x t => ∀ raw key, requests[i]? = some (.assign raw key) →
        Assigned i ⟨mac, Kind.trimKey key⟩ x t) [] := by
    refine ⟨.start hw, fun i p hp => ?_⟩
    obtain ⟨q, hq, rfl⟩ := Option.map_eq_some_iff.mp ((List.getElem?_map ..).symm.trans hp)
    exact Contest.safe_plan hc s hq (hrequests q (List.mem_of_getElem? hq))
  have hfinal : (race.play conditions moves).Safe conditions (Contest w mac requests) True
      (fun i x t => ∀ raw key, requests[i]? = some (.assign raw key) →
        Assigned i ⟨mac, Kind.trimKey key⟩ x t) h :=
    hsafe.play (fun v h j hv => hv.land j) fun _ _ => trivial
  have hwritten : ∀ (i : Nat) raw key, requests[i]? = some (.assign raw key) →
      (race.play conditions moves).plans[i]? = some (.done ()) →
        ∃ e ∈ h, e.writer = .request i ∧ e.assigns ∧ e.row = ⟨mac, Kind.trimKey key⟩ :=
    fun i raw key hi hp => hfinal.result hp rfl raw key hi
  refine ⟨fun before v after _ e he hm => Race.prefix_of_writeBack he hm, hwritten, ?_, ?_⟩
  · rintro ⟨i, raw, key, hi, hp⟩
    obtain ⟨e, he, -, hassigns, -⟩ := hwritten i raw key hi hp
    have hne : h.filter Write.assigns ≠ [] :=
      List.ne_nil_of_mem (List.mem_filter.mpr ⟨he, hassigns⟩)
    obtain ⟨b, hb⟩ := List.getLast?_isSome.mpr hne |> Option.isSome_iff_exists.mp
    obtain ⟨hmem, hassigns⟩ := List.mem_filter.mp (List.mem_of_getLast? hb)
    exact ⟨b, hb, hfinal.world.rows.last b hb, hfinal.world.rows.assigned b hmem hassigns⟩
  · exact fun i raw key cause hi hp => hfinal.result hp rfl raw key hi

theorem assignments_stay_three :
    let w : World := { store := { payloads := {
      catalog := [⟨"rack7", "/payloads/rack7"⟩], assignments := [⟨"001122334455", "rack7"⟩] } } }
    let requests : List (DeviceRequest .payload) :=
      [.resolve "AA:BB:CC:DD:EE:FF" none, .assign "aabbccddeeff" "rack7", .assign "gddeeff" "rack7"]
    let moves : List Race.Move :=
      [.advance 0, .detach 0, .advance 1, .advance 1, .advance 1, .land 0, .advance 1, .advance 2,
        .advance 2, .advance 2, .advance 2]
    let race : Race ServiceError Unit := ⟨w, requests.map (DeviceRequest.plan (.ofConfig {}))⟩
    (∀ q ∈ requests, q.Concerns (w.store.shelf .payload) "aabbccddeeff") ∧ w.landings = [] ∧
      Conditions.Faultless {} ∧
      AssignmentsStay {} "aabbccddeeff" requests race moves := by
  intro w requests moves race
  have hmac (raw : String) (h : Identity.normalize raw = .ok (.mac "aabbccddeeff")) :
      ∃ identity, Identity.normalize raw = .ok identity ∧
        (w.store.shelf .payload).Names "aabbccddeeff" identity := ⟨_, h, rfl⟩
  have hrequests : ∀ q ∈ requests, q.Concerns (w.store.shelf .payload) "aabbccddeeff" := by
    intro q hq
    simp only [requests, List.mem_cons, List.not_mem_nil, or_false] at hq
    rcases hq with rfl | rfl | rfl
    · show Identity.normalize _ = _
      cbv
    · exact hmac _ (by cbv)
    · refine ⟨.hostname "gddeeff" "ddeeff", by cbv, ?_⟩
      intro row hrow hfinds
      obtain rfl : row = ⟨"001122334455", "rack7"⟩ := List.mem_singleton.mp hrow
      have hno : (Identity.hostname "gddeeff" "ddeeff").finds "001122334455" = false := by cbv
      rw [hno] at hfinds
      cases hfinds
  have hc : Conditions.Faultless {} := fun _ _ => rfl
  exact ⟨hrequests, rfl, hc, assignments_stay _ w {} _ requests moves hrequests rfl hc⟩

end FleetBoot
