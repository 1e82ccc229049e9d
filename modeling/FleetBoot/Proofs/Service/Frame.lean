import FleetBoot.Proofs.Race.Kept
import FleetBoot.Proofs.Service.Operation
import Mathlib

/-! What operations leave alone: each makes a difference to one row of its own at most, and over any
number of requests, one after the other or at the same time, the row of a device stays and is given
another key by assignments only. -/
namespace FleetBoot

namespace Operation

/-- The plan of the operation, with the operation beside its result. -/
def named (s : Service) (op : Operation) : Plan ServiceError ((op : Operation) × op.Result) :=
  (op.plan s).bind fun a => .done ⟨op, a⟩

/-- The difference that the operation makes with this result, if it makes any: a resolution by a
whole address adds the row of a device that had none, an assignment changes or adds the row of a
device that the name selects, and an image is added or removed under its key. -/
def Changes : (op : Operation) → op.Result → Store → Store → Prop
  | .resolve k raw _, answer, s, t => ∃ mac, Identity.normalize raw = .ok (.mac mac) ∧
      s.AddsRow t (⟨mac, Kind.answerKey answer⟩ : Assignment k)
  | .assign k raw key, a, s, t => ∃ identity, Identity.normalize raw = .ok identity ∧
      identity.selects (Kind.assignedMac a) ∧
      (s.ReplacesRow t (⟨Kind.assignedMac a, Kind.trimKey key⟩ : Assignment k) ∨
        identity.mac? = some (Kind.assignedMac a) ∧
          s.AddsRow t (⟨Kind.assignedMac a, Kind.trimKey key⟩ : Assignment k))
  | .createImage image, signed, s, t =>
      signed.image.key = Kind.trimKey (k := .image) image.key ∧
        s.AddsEntry (k := .image) t signed.image
  | .deleteImage tag type, _, s, t => ∃ image : Image,
      image.key = Kind.trimKey (k := .image) ⟨tag, type⟩ ∧ s.RemovesEntry (k := .image) t image
  | .available _, _, _, _ => False
  | .networkDefaults _, _, _, _ => False
  | .parameters _, _, _, _ => False
  | .locateImage _, _, _, _ => False

variable {op : Operation} {a : op.Result} {s t : Store}

theorem Changes.keyed (h : op.Changes a s t) (hs : s.Keyed) : t.Keyed := by
  cases op with
  | resolve k raw caller =>
    obtain ⟨mac, -, hadds⟩ := h
    exact hadds.keyed hs
  | assign k raw key =>
    obtain ⟨identity, -, -, hreplaces | ⟨-, hadds⟩⟩ := h
    · exact hreplaces.keyed hs
    · exact hadds.keyed hs
  | createImage image => exact h.2.keyed hs
  | deleteImage tag type =>
    obtain ⟨image, -, hremoves⟩ := h
    exact hremoves.keyed hs
  | _ => exact h.elim

/-- The call that an operation makes has no other effect than the operation may have. -/
theorem changes_of_writes (hs : s.Keyed) {c : Call} (h : op.Writes a c) :
    c.effect s = s ∨ op.Changes a s (c.effect s) := by
  cases op with
  | resolve k raw caller =>
    obtain ⟨mac, hraw, rfl⟩ := h
    rw [Call.effect_insert _ s 0]
    exact (s.land_cases _ 0).imp_right fun hadds => ⟨mac, hraw, hadds⟩
  | assign k raw key =>
    obtain ⟨identity, hraw, hselects, rfl | ⟨hmac, rfl⟩⟩ := h
    · exact (s.update_cases (hs.shelf k) _).imp_right
        fun hreplaces => ⟨identity, hraw, hselects, .inl hreplaces⟩
    · rw [Call.effect_insert _ s 0]
      exact (s.land_cases _ 0).imp_right
        fun hadds => ⟨identity, hraw, hselects, .inr ⟨hmac, hadds⟩⟩
  | createImage image =>
    obtain ⟨hkey, rfl⟩ := h
    rcases s.register_cases (k := .image) a.image with ⟨-, he⟩ | ⟨-, t, ht, hadds⟩
    · exact .inl (by simp only [Call.effect, World.perform, he, World.commit])
    · refine .inr ⟨hkey, ?_⟩
      simpa only [Call.effect, World.perform, ht, World.commit] using hadds
  | deleteImage tag type =>
    cases h
    rcases s.remove_cases (hs.shelf .image) _ with hnone | ⟨image, -, hkey, hremoves⟩
    · exact .inl (congrArg Prod.snd hnone)
    · exact .inr ⟨image, hkey, hremoves⟩
  | _ => exact h.elim

/-- An operation leaves the database as it was, now and later, or it succeeds and makes its one
difference. -/
theorem run_frame (op : Operation) (service : Service) (conditions : Conditions) (d : Deadline)
    {w : World} (hkeyed : w.store.Keyed) (hw : w.landings = []) (ht :
      ((op.plan service).run conditions d w).2.Comes t) :
    t = w.store ∨ ∃ a, ((op.plan service).run conditions d w).1 = some (.ok a) ∧
      op.Changes a w.store t := by
  rcases Plan.run_changes (op.changesLast_plan service) hw with
    ⟨hstore, hlandings⟩ | ⟨c, x, hx, ⟨a, rfl, hwrites⟩, hby⟩
  · exact .inl ((World.comes_of_landings hlandings ht).trans hstore)
  · rcases hby t ht with hsame | heffect
    · exact .inl hsame
    · rcases changes_of_writes hkeyed hwrites with hsame | hchanges
      · exact .inl (heffect.trans hsame)
      · exact .inr ⟨a, hx, heffect ▸ hchanges⟩

end Operation

/-- A request in a history: for how long nothing was asked before it, for how long it waits, and
how calls behave meanwhile. -/
structure Turn where
  operation : Operation
  pause : Nat := 0
  timeout : Option Nat := none
  conditions : Conditions := {}

/-- A request that was served, with its result if it came to one in time. -/
structure Served where
  operation : Operation
  result : Option (Except ServiceError operation.Result)

/-- The row that the request has given a device, if it was an assignment and succeeded. -/
def Served.given (o : Served) : Option ((k : Kind) × Assignment k) :=
  match o.result with
  | some (.ok a) => o.operation.given a
  | _ => none

namespace Service
variable {k : Kind} {mac : String} {a : Assignment k}

/-- Serves requests one after the other. What a request has left to be inserted may come at any time
after it. -/
def serve (s : Service) : List Turn → World → List Served × World
  | [], w => ([], w)
  | r :: requests, w =>
      let v := w.elapse (w.now + r.pause)
      let ended := (r.operation.plan s).run r.conditions (.start v.now r.timeout) v
      let rest := s.serve requests ended.2
      (⟨r.operation, ended.1⟩ :: rest.1, rest.2)

theorem given_of_writes {op : Operation} {x : op.Result} (h : op.Writes x (.update a)) :
    op.given x = some ⟨k, a⟩ := by
  cases op with
  | assign j raw key =>
    obtain ⟨identity, -, -, hc | ⟨-, hc⟩⟩ := h
    · obtain ⟨rfl, ha⟩ := Call.update.inj hc
      cases ha
      rfl
    · cases hc
  | resolve j raw caller =>
    obtain ⟨mac, -, hc⟩ := h
    cases hc
  | createImage image => exact nomatch h.2
  | deleteImage tag type => exact nomatch h
  | _ => exact h.elim

/-- A device keeps its row through an operation, or is given another one. -/
theorem run_keeps_row (s : Service) (op : Operation) (conditions : Conditions) (d : Deadline)
    {w : World} (h : (w.store.shelf k).row? mac = some a) :
    ∃ b, (((op.plan s).run conditions d w).2.store.shelf k).row? mac = some b ∧
      (b = a ∨ Served.given ⟨op, ((op.plan s).run conditions d w).1⟩ = some ⟨k, b⟩) := by
  rcases Plan.run_row? (op.changesLast_plan s) h with hsame | ⟨b, x, hx, ⟨r, rfl, hwrites⟩, hb⟩
  · exact ⟨a, hsame, .inl rfl⟩
  · refine ⟨b, hb, .inr ?_⟩
    simp only [Served.given, hx]
    exact given_of_writes hwrites

/-- Operations that are asked for at the same time. -/
def together (s : Service) (operations : List Operation) (w : World) :
    Race ServiceError ((op : Operation) × op.Result) :=
  ⟨w, operations.map (Operation.named s)⟩

theorem changesLast_named (s : Service) (op : Operation) :
    (op.named s).ChangesLast fun c x => ∃ r, x = .ok r ∧ r.1.Writes r.2 c := by
  refine Plan.ChangesLast.map _ ((op.changesLast_plan s).mono ?_)
  rintro c x ⟨a, rfl, hwrites⟩
  exact ⟨⟨op, a⟩, rfl, hwrites⟩

/-- A device keeps its row whatever the order in which operations make their calls, or the last that
one of them has given it. -/
theorem together_keeps_row (s : Service) (operations : List Operation) (conditions : Conditions)
    (moves : List Race.Move) {w : World} (h : (w.store.shelf k).row? mac = some a) :
    let r := (s.together operations w).play conditions moves
    ∃ b, (r.world.store.shelf k).row? mac = some b ∧
      (b = a ∨ ∃ x, .ok x ∈ r.results ∧ x.1.given x.2 = some ⟨k, b⟩) := by
  intro r
  have hstart : (s.together operations w).Kept
      (fun c x => ∃ r, x = .ok r ∧ r.1.Writes r.2 c) mac a := by
    refine ⟨fun p hp => ?_, a, h, .inl rfl⟩
    obtain ⟨op, -, rfl⟩ := List.mem_map.mp hp
    exact changesLast_named s op
  obtain ⟨-, b, hb, hgiven⟩ := hstart.play conditions moves
  refine ⟨b, hb, hgiven.imp_right ?_⟩
  rintro ⟨i, x, hi, ⟨x, rfl, hwrites⟩⟩
  exact ⟨x, List.mem_filterMap.mpr ⟨_, List.mem_of_getElem? hi, rfl⟩, given_of_writes hwrites⟩

/-- A device keeps its row while requests are served, or the last that it was given. -/
theorem serve_keeps_row (s : Service) (requests : List Turn) {w : World}
    (h : (w.store.shelf k).row? mac = some a) :
    ∃ b, ((s.serve requests w).2.store.shelf k).row? mac = some b ∧
      (b = a ∨ ∃ o ∈ (s.serve requests w).1, o.given = some ⟨k, b⟩) := by
  induction requests generalizing w a with
  | nil => exact ⟨a, h, .inl rfl⟩
  | cons r requests ih =>
    let v := w.elapse (w.now + r.pause)
    obtain ⟨b, hb, hgiven⟩ := run_keeps_row s r.operation r.conditions (.start v.now r.timeout)
      (World.row?_elapse h (w.now + r.pause))
    obtain ⟨c, hc, hrest⟩ := ih hb
    refine ⟨c, hc, ?_⟩
    rcases hrest with rfl | ⟨o, ho, hog⟩
    · exact hgiven.imp_right fun hg => ⟨_, List.mem_cons_self, hg⟩
    · exact .inr ⟨o, List.mem_cons_of_mem _ ho, hog⟩

/-- An operation that ends without success leaves the database alone, and one that succeeds makes no
difference, now or later, but to the one row that it may add, change or remove. Whatever is asked of
the service, in turn or at the same time, the row of a device is never lost, and only assignments of
this device that succeed give it another key. -/
theorem operation_frame (s : Service) :
    (∀ (op : Operation) (conditions : Conditions) (d : Deadline) (w : World) (t : Store),
      w.store.Keyed → w.landings = [] → ((op.plan s).run conditions d w).2.Comes t →
        t.Keyed ∧ (t = w.store ∨ ∃ a,
          ((op.plan s).run conditions d w).1 = some (.ok a) ∧ op.Changes a w.store t)) ∧
    ∀ (w : World) (k : Kind) (mac : String) (a : Assignment k) (t : Store),
      (w.store.shelf k).row? mac = some a →
        (∀ requests : List Turn, (s.serve requests w).2.Comes t →
          ∃ b, (t.shelf k).row? mac = some b ∧ b.mac = a.mac ∧
            (b.key = a.key ∨ ∃ o ∈ (s.serve requests w).1, o.given = some ⟨k, b⟩)) ∧
        ∀ (operations : List Operation) (conditions : Conditions) (moves : List Race.Move),
          let r := (s.together operations w).play conditions moves
          r.world.Comes t → ∃ b, (t.shelf k).row? mac = some b ∧ b.mac = a.mac ∧
            (b.key = a.key ∨ ∃ x, .ok x ∈ r.results ∧ x.1.given x.2 = some ⟨k, b⟩) := by
  constructor
  · intro op conditions d w t hkeyed hw ht
    have hframe := op.run_frame s conditions d hkeyed hw ht
    refine ⟨?_, hframe⟩
    rcases hframe with rfl | ⟨a, -, hchanges⟩
    · exact hkeyed
    · exact hchanges.keyed hkeyed
  · intro w k mac a t ha
    have hmac {u : Store} {b : Assignment k} (hb : (u.shelf k).row? mac = some b) :
        b.mac = a.mac := (Shelf.mac_of_row? hb).trans (Shelf.mac_of_row? ha).symm
    constructor
    · intro requests ht
      obtain ⟨b, hb, hgiven⟩ := serve_keeps_row s requests ha
      exact ⟨b, World.row?_of_comes hb ht, hmac hb, hgiven.imp_left (congrArg Assignment.key)⟩
    · intro operations conditions moves r ht
      obtain ⟨b, hb, hgiven⟩ := together_keeps_row s operations conditions moves ha
      exact ⟨b, World.row?_of_comes hb ht, hmac hb, hgiven.imp_left (congrArg Assignment.key)⟩

/-- The row that a resolution leaves to be inserted is its one difference, and other devices keep
theirs. -/
theorem operation_frame_detached :
    let s := Service.ofConfig {}
    let w : World := { store := { payloads := { assignments := [⟨"001122334455", "rescue"⟩] } } }
    let op := Operation.resolve .payload "AA:BB:CC:DD:EE:FF" none
    let slow : Conditions := { delay := fun | .insert _ => 30 | _ => 0 }
    let v := ((op.plan s).run slow (.start 0 (some 10)) w).2
    let t := (v.elapse 40).store
    let served := s.serve [⟨op, 5, some 10, slow⟩] w
    let both := [op, .assign .payload "001122334455" "default"]
    let race := (s.together both w).play {} (Race.inTurn 2 10)
    w.store.Keyed ∧ w.landings = [] ∧ v.Comes t ∧ v.store.payloads.row? "aabbccddeeff" = none ∧
      t.payloads.row? "aabbccddeeff" = some ⟨"aabbccddeeff", "default"⟩ ∧
      (∃ answer, op.Changes answer w.store t) ∧
      (∃ b, served.2.store.payloads.row? "001122334455" = some b ∧ b.mac = "001122334455" ∧
        (b.key = "rescue" ∨ ∃ o ∈ served.1, o.given = some ⟨.payload, b⟩)) ∧
      ∃ b, race.world.store.payloads.row? "001122334455" = some b ∧ b.mac = "001122334455" ∧
        (b.key = "rescue" ∨ ∃ x, .ok x ∈ race.results ∧ x.1.given x.2 = some ⟨.payload, b⟩) := by
  intro s w op slow v t served both race
  have hkeyed : w.store.Keyed :=
    ⟨fun k => by cases k <;> exact ⟨by decide, by decide, by decide⟩, by decide⟩
  have hcomes : v.Comes t := .inr ⟨40, rfl⟩
  have hnone : v.store.payloads.row? "aabbccddeeff" = none := by
    subst v w op slow s
    cbv
  have hsome : t.payloads.row? "aabbccddeeff" = some ⟨"aabbccddeeff", "default"⟩ := by
    subst t v w op slow s
    cbv
  have hrow : w.store.payloads.row? "001122334455" = some ⟨"001122334455", "rescue"⟩ := by decide
  obtain ⟨hframe, hkept⟩ := operation_frame s
  refine ⟨hkeyed, rfl, hcomes, hnone, hsome, ?_, ?_, ?_⟩
  · obtain ⟨-, hsame | ⟨answer, -, hchanges⟩⟩ :=
      hframe op slow (.start 0 (some 10)) w t hkeyed rfl hcomes
    · rw [hsame] at hsome
      exact absurd hsome (by decide)
    · exact ⟨answer, hchanges⟩
  · exact (hkept w .payload "001122334455" _ _ hrow).1 [⟨op, 5, some 10, slow⟩]
      served.2.comes_store
  · exact (hkept w .payload "001122334455" _ _ hrow).2 both {} (Race.inTurn 2 10)
      race.world.comes_store

end Service
end FleetBoot
