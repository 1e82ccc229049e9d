import FleetBoot.Proofs.Service.Grounded

/-! The service at work: requests that overlap, rows that land late, entries that are added. Whatever
happens, and whatever fails, no row comes to point at nothing, and so a device that has a row is
answered from it. -/
namespace FleetBoot
variable {free : Keys} {k : Kind}

/-- What can happen to the service: a request comes in and joins those under way, one of these makes
its next step or a row lands that nobody waits for, a request is served from its beginning to its
end, time passes, and the catalogs and the defaults of networks are added to. A request that is
given up makes no further steps. -/
inductive Event where
  | ask (operation : Operation)
  | step (conditions : Conditions) (move : Race.Move)
  | serve (turn : Turn)
  | pause (time : Nat)
  | register (call : Registration)

namespace Event

/-- The operation that is asked for. -/
def operation? : Event → Option Operation
  | .ask operation => some operation
  | .serve turn => some turn.operation
  | _ => none

/-- Images are to be removed. -/
def Removes (event : Event) : Prop := ∃ tag type, event.operation? = some (.deleteImage tag type)

/-- Calls are answered by the database or tell of no entries. -/
def Keyless : Event → Prop
  | .step conditions _ => conditions.Keyless
  | .serve turn => turn.conditions.Keyless
  | _ => True

end Event

namespace Service
variable {s : Service}

/-- Lets something happen while requests are under way. -/
def react (s : Service) (r : Race ServiceError ((op : Operation) × op.Result)) :
    Event → Race ServiceError ((op : Operation) × op.Result)
  | .ask operation => { r with plans := r.plans ++ [operation.named s] }
  | .step conditions move => r.move conditions move
  | .serve turn => { r with world := (s.serve [turn] r.world).2 }
  | .pause time => { r with world := r.world.elapse (r.world.now + time) }
  | .register call =>
      match r.world.store.enter call with
      | .ok store => { r with world := { r.world with store := store } }
      | .error _ => r

/-- The world after events, one after the other, before which no request is under way. -/
def worldAfter (s : Service) (w : World) (events : List Event) : World :=
  (events.foldl s.react ⟨w, []⟩).world

theorem grounded_react (hglobal : ∀ k, free k (s.cascade k).globalKey)
    {r : Race ServiceError ((op : Operation) × op.Result)} (hr : r.Grounded free) {event : Event}
    (hkeyless : event.Keyless) (hremoves : event.Removes → ∀ key, free .image key) :
    (s.react r event).Grounded free := by
  cases event with
  | ask operation =>
    refine ⟨hr.world, fun p hp => ?_⟩
    rcases List.mem_append.mp hp with hp | hp
    · exact hr.plans p hp
    · rw [List.mem_singleton.mp hp]
      have hplan := operation.grounded_plan s hglobal
        (fun ⟨tag, type, hop⟩ => hremoves ⟨tag, type, congrArg some hop⟩) r.world.store
      exact hplan.map _
  | step conditions move => exact hr.move hkeyless move
  | serve turn =>
    have hpause := hr.world.elapse (r.world.now + turn.pause)
    have hplan := turn.operation.grounded_plan s hglobal
      (fun ⟨tag, type, hop⟩ => hremoves ⟨tag, type, congrArg some hop⟩)
      (r.world.elapse (r.world.now + turn.pause)).store
    exact hr.withWorld (hpause.trans (hplan.run hpause.grounded hkeyless _))
  | pause time => exact hr.withWorld (hr.world.elapse _)
  | register call =>
    rw [react]
    cases hstore : r.world.store.enter call with
    | error cause => exact hr
    | ok store =>
      exact hr.withWorld (hr.world.steady (hr.world.store.enter hstore)
        (Store.grows_enter hstore) (List.Subset.refl _))

/-- Whatever happens, all rows keep pointing at something. -/
theorem grounded_foldl_react (hglobal : ∀ k, free k (s.cascade k).globalKey)
    {r : Race ServiceError ((op : Operation) × op.Result)} (hr : r.Grounded free)
    {events : List Event} (hkeyless : ∀ event ∈ events, event.Keyless)
    (hremoves : (∃ event ∈ events, event.Removes) → ∀ key, free .image key) :
    (events.foldl s.react r).Grounded free := by
  induction events generalizing r with
  | nil => exact hr
  | cons event events ih =>
    obtain ⟨hfirst, hrest⟩ := List.forall_mem_cons.mp hkeyless
    have hnow := grounded_react hglobal hr hfirst
      fun hevent => hremoves ⟨event, List.mem_cons_self, hevent⟩
    refine ih hnow hrest ?_
    rintro ⟨later, hmem, hlater⟩
    exact hremoves ⟨later, List.mem_cons_of_mem event hmem, hlater⟩

/-- A device whose row points at something is answered from its row. -/
theorem exists_ownEntry {w : World} {mac : String} {row : Assignment k} {global : k.Entry}
    (hrow : (w.store.shelf k).row? mac = some row)
    (hkey : row.key = Kind.keyOf global ∨ ∃ e ∈ (w.store.shelf k).catalog, Kind.keyOf e = row.key)
    (conditions : Conditions) :
    ∃ e, (seen k conditions mac w).ownEntry global mac = some e ∧ Kind.keyOf e = row.key := by
  have hseen : (seen k conditions mac w).row? mac = some row := World.row?_elapse hrow _
  have hlookup : (seen k conditions mac w).lookup? row.key = (w.store.shelf k).lookup? row.key :=
    (w.elapse_similar _).lookup? k row.key
  have hentry : ∃ e, (seen k conditions mac w).entryOf global row.key = some e := by
    rw [Shelf.entryOf, hlookup]
    rcases hkey with hglobal | hcatalog
    · rw [if_pos hglobal]
      cases (w.store.shelf k).lookup? row.key with
      | some e => exact ⟨e, rfl⟩
      | none => exact ⟨global, rfl⟩
    · obtain ⟨e, he⟩ := Shelf.exists_lookup?_iff.mpr hcatalog
      rw [he]
      exact ⟨e, rfl⟩
  obtain ⟨e, he⟩ := hentry
  refine ⟨e, ?_, Shelf.keyOf_of_entryOf he⟩
  rw [Shelf.ownEntry, hseen, Option.bind_some, he]

/-- Whatever the service is asked, in whatever order its requests and late inserts go on, whatever
fails and whatever is added meanwhile: if no device had a row before, all rows have canonical
addresses, and keys that are in the catalog or are that of the default for all, those of images as
long as no images are removed. Every device that has such a row is answered from it and not from a
default, by all of its names, or its objects cannot be signed. -/
theorem rows_never_dangle (s : Service) (w : World) (events : List Event)
    (hrows : ∀ k, (w.store.shelf k).assignments = []) (hw : w.landings = [])
    (hkeyless : ∀ event ∈ events, event.Keyless) :
    let v := s.worldAfter w events
    (∀ k, ∀ row ∈ (v.store.shelf k).assignments, CanonicalMac row.mac) ∧
    ∀ k : Kind, (k = .image → ∀ event ∈ events, ¬ event.Removes) →
      (∀ row ∈ (v.store.shelf k).assignments, row.key = (s.cascade k).globalKey ∨
        ∃ e ∈ (v.store.shelf k).catalog, Kind.keyOf e = row.key) ∧
      ∀ (mac : String) (row : Assignment k), (v.store.shelf k).row? mac = some row →
        ∀ (raw : String) (caller : Option Address) (after : Conditions),
          Identity.normalize raw = .ok (.mac mac) → after.Faultless →
          let resolution := (((s.cascade k).resolve (.mac mac) caller).run after .never v).1
          let result := ((s.resolve raw caller k).run after .never v).1
          result = resolution.map (Except.map Resolution.answer) ∧
          ∃ e : k.Entry, Kind.keyOf e = row.key ∧
            s.Delivers (v.answers after) mac (.mac mac) (e, .device) resolution := by
  intro v
  let free : Keys := fun k key =>
    key = (s.cascade k).globalKey ∨ k = .image ∧ ∃ event ∈ events, event.Removes
  have hstart : Race.Grounded (⟨w, []⟩ : Race ServiceError ((op : Operation) × op.Result)) free := by
    refine ⟨⟨fun k row hrow => ?_, fun l hl => ?_⟩, nofun⟩
    · rw [hrows k] at hrow
      cases hrow
    · rw [hw] at hl
      cases hl
  have hv : v.Grounded free :=
    (grounded_foldl_react (fun k => .inl rfl) hstart hkeyless fun h _ => .inr ⟨rfl, h⟩).world
  refine ⟨fun k row hrow => (hv.store k row hrow).mac, fun k hkeeps => ?_⟩
  have hbacked (row : Assignment k) (hrow : row ∈ (v.store.shelf k).assignments) :
      row.key = (s.cascade k).globalKey ∨
        ∃ e ∈ (v.store.shelf k).catalog, Kind.keyOf e = row.key := by
    rcases (hv.store k row hrow).key with (hglobal | ⟨hk, event, hmem, hremoves⟩) | hcatalog
    · exact .inl hglobal
    · exact absurd hremoves (hkeeps hk event hmem)
    · exact .inr hcatalog
  refine ⟨hbacked, fun mac row hrow raw caller after hraw hafter => ⟨?_, ?_⟩⟩
  · rw [resolve_of_normalize hraw, Plan.run_map]
  · have hkey := hbacked row (List.mem_of_find?_eq_some hrow)
    rw [← keyOf_globalEntry s (v.answers after) k] at hkey
    obtain ⟨e, hown, he⟩ := exists_ownEntry hrow hkey after
    have hdelivers := delivers_seen (k := k) s hafter v mac caller
    rw [Shelf.choice, hown] at hdelivers
    exact ⟨e, he, hdelivers⟩

/-- A payload by the default of a network: its row lands after the request is over, while another
request fails to write its own. -/
theorem rows_never_dangle_late :
    let s := Service.ofConfig {}
    let w : World := { store := { payloads := { catalog := [⟨"lab", "/payloads/lab"⟩] } } }
    let locked : Conditions :=
      { reply := fun | .insert _ => some (.error (.backend "locked")) | _ => none }
    let events : List Event := [
      .register (.network ⟨"10.0.0.0/8", .payload "lab"⟩),
      .ask (.resolve .payload "AA:BB:CC:DD:EE:FF" (some (.v4 0x0a010203))),
      .step {} (.advance 0), .step {} (.advance 0), .step {} (.detach 0),
      .serve { operation := .resolve .payload "001122334455" none, conditions := locked },
      .step {} (.land 0)]
    let v := s.worldAfter w events
    (∀ k, (w.store.shelf k).assignments = []) ∧ w.landings = [] ∧
      (∀ event ∈ events, event.Keyless) ∧ (∀ event ∈ events, ¬ event.Removes) ∧
      v.store.payloads.assignments = [⟨"aabbccddeeff", "lab"⟩] ∧ CanonicalMac "aabbccddeeff" ∧
      ∃ directory kept,
        ((s.payloads.resolve (.mac "aabbccddeeff") none).run {} .never v).1 =
          some (.ok ⟨⟨"aabbccddeeff", "lab", directory⟩, .device, kept⟩) := by
  intro s w locked events v
  have hrows : ∀ k, (w.store.shelf k).assignments = [] := fun k => by cases k <;> rfl
  have hquiet : Conditions.Keyless {} := ⟨nofun, nofun⟩
  have hlocked : locked.Keyless := ⟨nofun, nofun⟩
  have hkeyless : ∀ event ∈ events, event.Keyless := by
    simp only [events, List.forall_mem_cons]
    exact ⟨trivial, trivial, hquiet, hquiet, hquiet, hlocked, hquiet, nofun⟩
  have hremoves : ∀ event ∈ events, ¬ event.Removes := by
    simp only [events, List.forall_mem_cons, Event.Removes, Event.operation?]
    exact ⟨nofun, nofun, nofun, nofun, nofun, nofun, nofun, nofun⟩
  have hv : v.store.payloads.assignments = [⟨"aabbccddeeff", "lab"⟩] := by
    subst v events locked w s
    cbv
  have hrow : v.store.payloads.row? "aabbccddeeff" = some ⟨"aabbccddeeff", "lab"⟩ := by
    rw [Shelf.row?, hv]
    rfl
  have hraw : Identity.normalize "aabbccddeeff" = .ok (.mac "aabbccddeeff") := by cbv
  obtain ⟨hmac, hkind⟩ := rows_never_dangle s w events hrows rfl hkeyless
  obtain ⟨-, hanswered⟩ := hkind .payload Kind.noConfusion
  obtain ⟨-, e, he, ⟨hsigned, -⟩⟩ :=
    hanswered "aabbccddeeff" _ hrow _ none {} hraw fun _ _ => rfl
  obtain ⟨kept, hkept⟩ := hsigned trivial
  have hlab : e.id = "lab" := he
  refine ⟨hrows, rfl, hkeyless, hremoves, hv,
    hmac .payload _ (List.mem_of_find?_eq_some hrow), e.directory, kept, ?_⟩
  rw [← hlab]
  exact hkept

end Service
end FleetBoot
