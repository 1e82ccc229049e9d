import FleetBoot.Proofs.Service.Answer
import FleetBoot.Proofs.Store.Rows

/-! Which entry a device gets that is named by its whole address. -/
namespace FleetBoot

namespace Shelf
variable {k : Kind}

/-- The entry of a row with this key: that of the catalog, or else the default for all if it has the
key. -/
def entryOf (s : Shelf k) (global : k.Entry) (key : k.Key) : Option k.Entry :=
  match s.lookup? key with
  | some entry => some entry
  | none => if key = Kind.keyOf global then some global else none

theorem keyOf_of_entryOf {s : Shelf k} {global e : k.Entry} {key : k.Key}
    (h : s.entryOf global key = some e) : Kind.keyOf e = key := by
  unfold entryOf at h
  split at h
  · next entry hentry =>
    cases h
    exact keyOf_of_lookup? hentry
  · split at h
    · next hkey =>
      cases h
      exact hkey.symm
    · cases h

/-- The entry of the device's own row. -/
def ownEntry (s : Shelf k) (global : k.Entry) (mac : String) : Option k.Entry :=
  (s.row? mac).bind fun row => s.entryOf global row.key

theorem map_ownEntry (s : Shelf k) (global : k.Entry) (mac : String) :
    ((s.row? mac).bind fun row => (s.entryOf global row.key).map fun entry => (row.mac, entry)) =
      (s.ownEntry global mac).map fun entry => (mac, entry) := by
  rw [ownEntry]
  cases h : s.row? mac with
  | none => rfl
  | some row => rw [Option.bind_some, Option.bind_some, mac_of_row? h]

/-- The entry for a device that has none of its own. -/
def defaultEntry (s : Shelf k) (global : k.Entry) (caller : Option Address) : k.Entry × Tier :=
  match caller.bind s.networkDefault with
  | some entry => (entry, .network)
  | none => (global, .global)

theorem defaultEntry_ne_device (s : Shelf k) (global : k.Entry) (caller : Option Address) :
    (s.defaultEntry global caller).2 ≠ .device := by
  unfold defaultEntry
  split <;> exact nofun

/-- The entry that a device gets, and where it comes from. -/
def choice (s : Shelf k) (global : k.Entry) (mac : String) (caller : Option Address) :
    k.Entry × Tier :=
  match s.ownEntry global mac with
  | some entry => (entry, .device)
  | none => s.defaultEntry global caller

theorem selectRow_mac (s : Shelf k) (mac : String) :
    selectRow (.mac mac) ((s.row? mac).map s.hydrate).toList =
      .ok ((s.row? mac).map s.hydrate) := by
  cases h : s.row? mac with
  | none => rfl
  | some row => simp [selectRow, Identity.selects, hydrate, mac_of_row? h]

end Shelf

theorem World.Similar.defaultEntry {k : Kind} {v w : World} (h : v.Similar w) (global : k.Entry)
    (caller : Option Address) :
    (v.store.shelf k).defaultEntry global caller =
      (w.store.shelf k).defaultEntry global caller := by
  simp only [Shelf.defaultEntry, funext fun ip => h.networkDefault k ip]

theorem Plan.eval_request (ρ : (c : Call) → c.Answer) (c : Call) :
    (Plan.request c).eval ρ = (ρ c).mapError (ServiceError.ofCall c) := by
  rw [Plan.request, Plan.eval_mapError, Plan.eval_ask]

theorem Plan.only_request {allowed : Call → Prop} {c : Call} (h : allowed c) :
    (Plan.request c).Only allowed := (Plan.only_ask h).mapError _

theorem Plan.within_request (c : Call) : Plan.Within 1 (Plan.request c) :=
  (Plan.within_ask c).mapError _

theorem only_deviceRow (k : Kind) (identity : Identity) :
    (deviceRow k identity).Only Call.Reads :=
  (Plan.only_request (c := .find k identity (rowLimit identity)) trivial).bind
    fun _ => Plan.only_ofExcept _

theorem within_deviceRow (k : Kind) (identity : Identity) :
    Plan.Within 1 (deviceRow k identity) :=
  (Plan.within_request _).bind fun _ => Plan.within_ofExcept _

namespace Cascade
variable {k : Kind} {α : Type} (c : Cascade k α)

/-- The address and the entry of a row that was found. -/
def ofRow : Option (StoredRow k) → Plan ServiceError (Option (String × k.Entry))
  | some row => (c.rowEntry row).bind fun entry =>
      .done (entry.map fun entry => (row.row.mac, entry))
  | none => .done none

theorem deviceEntry_eq (identity : Identity) :
    c.deviceEntry identity = (deviceRow k identity).bind c.ofRow := by
  rw [deviceEntry, Plan.bind_eq]
  congr 1

/-- Answers by an entry that the device has, whose row has this address. -/
def serve (mac owner : String) (entry : k.Entry) : Plan ServiceError (Resolution α) :=
  (c.deliver owner (.mac mac) entry).bind fun answer => .done ⟨answer, .device, none⟩

/-- Answers by a default and keeps it for the device. -/
def provide (mac : String) (chosen : k.Entry × Tier) : Plan ServiceError (Resolution α) :=
  (c.deliver mac (.mac mac) chosen.1).bind fun answer =>
    .writeBack (⟨mac, Kind.keyOf chosen.1⟩ : Assignment k) fun outcome =>
      .done ⟨answer, chosen.2, some outcome⟩

/-- What is left of a resolution when it is known whether the device has an entry of its own. -/
def goOn (mac : String) (caller : Option Address) :
    Option (String × k.Entry) → Plan ServiceError (Resolution α)
  | some (owner, entry) => c.serve mac owner entry
  | none => (c.defaultEntry caller).bind (c.provide mac)

theorem resolve_mac (mac : String) (caller : Option Address) :
    c.resolve (.mac mac) caller = (c.deviceEntry (.mac mac)).bind (c.goOn mac caller) := by
  rw [resolve, Plan.bind_eq]
  congr 1
  funext own
  rcases own with _ | ⟨owner, entry⟩ <;> rfl

end Cascade

namespace Service
variable {k : Kind}

theorem only_rowEntry (s : Service) (row : StoredRow k) :
    ((s.cascade k).rowEntry row).Only Call.OnObjects := by
  unfold Cascade.rowEntry
  split
  · trivial
  · split
    · exact (only_global s k).bind fun _ => trivial
    · trivial

theorem within_rowEntry (s : Service) (row : StoredRow k) :
    Plan.Within 1 ((s.cascade k).rowEntry row) := by
  unfold Cascade.rowEntry
  split
  · exact .done 1 _
  · split
    · exact (within_global s k).bind (m := 0) fun _ => .done 0 _
    · exact .done 1 _

theorem only_ofRow (s : Service) (row : Option (StoredRow k)) :
    ((s.cascade k).ofRow row).Only Call.OnObjects := by
  cases row with
  | none => trivial
  | some row => exact (only_rowEntry s row).bind fun _ => trivial

theorem only_deviceEntry (s : Service) (identity : Identity) :
    ((s.cascade k).deviceEntry identity).Only Call.Reads := by
  rw [Cascade.deviceEntry_eq]
  exact (only_deviceRow k identity).bind fun row =>
    (only_ofRow s row).mono fun _ => Call.OnObjects.reads

theorem within_deviceEntry (s : Service) (identity : Identity) :
    Plan.Within 2 ((s.cascade k).deviceEntry identity) := by
  rw [Cascade.deviceEntry_eq]
  refine (within_deviceRow k identity).bind (m := 1) fun row => ?_
  cases row with
  | none => exact .done 1 _
  | some row => exact (within_rowEntry s row).bind (m := 0) fun _ => .done 0 _

theorem only_defaultEntry (s : Service) (caller : Option Address) :
    ((s.cascade k).defaultEntry caller).Only Call.Rowless := by
  refine Plan.Only.bind ?_ fun entry => ?_
  · cases caller with
    | none => trivial
    | some ip => exact Plan.only_request (c := .networkDefault k ip) trivial
  · cases entry with
    | none => exact ((only_global s k).mono fun _ => Call.OnObjects.rowless).bind fun _ => trivial
    | some entry => trivial

theorem within_defaultEntry (s : Service) (caller : Option Address) :
    Plan.Within 2 ((s.cascade k).defaultEntry caller) := by
  refine Plan.Within.bind (n := 1) (m := 1) ?_ fun entry => ?_
  · cases caller with
    | none => exact .done 1 _
    | some ip => exact Plan.within_request _
  · cases entry with
    | none => exact (within_global s k).bind (m := 0) fun _ => .done 0 _
    | some entry => exact .done 1 _

/-- A resolution makes at most so many calls. -/
def callLimit : Nat := 9

theorem within_resolve (s : Service) (identity : Identity) (caller : Option Address) :
    Plan.Within callLimit ((s.cascade k).resolve identity caller) := by
  refine (within_deviceEntry s identity).bind (m := 7) fun own => ?_
  cases own with
  | some own => exact ((within_deliver s own.1 identity own.2).bind fun _ => .done 3 _)
  | none =>
    cases identity with
    | hostname token suffix => exact .fail 7 _
    | mac mac =>
      exact (within_defaultEntry s caller).bind (m := 5) fun e =>
        (within_deliver s mac (.mac mac) e.1).bind (m := 1) fun _ =>
          .writeBack _ fun _ => .done 0 _

theorem answers_networkDefault {conditions : Conditions} (h : conditions.Faultless) (w : World)
    (ip : Address) :
    w.answers conditions (.networkDefault k ip) = .ok ((w.store.shelf k).networkDefault ip) :=
  World.answers_eq_perform h id w

variable {ρ : (c : Call) → c.Answer} {shelf : Shelf k}

theorem eval_rowEntry (s : Service) (ρ : (c : Call) → c.Answer) (row : Assignment k) :
    ((s.cascade k).rowEntry (shelf.hydrate row)).eval ρ =
      .ok (shelf.entryOf (s.globalEntry ρ k) row.key) := by
  simp only [Cascade.rowEntry, Shelf.hydrate, Shelf.entryOf, keyOf_globalEntry]
  cases shelf.lookup? row.key with
  | some entry => rfl
  | none =>
    by_cases hkey : row.key = (s.cascade k).globalKey
    · simp only [hkey, if_true, Plan.map_eq, Plan.eval_bind, eval_global]
      rfl
    · simp only [hkey, if_false]
      rfl

theorem eval_ofRow (s : Service) (ρ : (c : Call) → c.Answer) (row : Option (Assignment k)) :
    ((s.cascade k).ofRow (row.map shelf.hydrate)).eval ρ =
      .ok (row.bind fun a =>
        (shelf.entryOf (s.globalEntry ρ k) a.key).map fun entry => (a.mac, entry)) := by
  cases row with
  | none => rfl
  | some a =>
    rw [Option.map_some, Cascade.ofRow, Plan.eval_bind, eval_rowEntry]
    rfl

theorem eval_defaultEntry (s : Service)
    (h : ∀ ip, ρ (.networkDefault k ip) = .ok (shelf.networkDefault ip))
    (caller : Option Address) :
    ((s.cascade k).defaultEntry caller).eval ρ =
      .ok (shelf.defaultEntry (s.globalEntry ρ k) caller) := by
  have hnetwork : (Cascade.networkEntry k caller).eval ρ =
      .ok (caller.bind shelf.networkDefault) := by
    cases caller with
    | none => rfl
    | some ip =>
      rw [Cascade.networkEntry, Plan.eval_request, h]
      rfl
  rw [Cascade.defaultEntry, Plan.bind_eq, Plan.eval_bind, hnetwork, Shelf.defaultEntry]
  cases caller.bind shelf.networkDefault with
  | some entry => rfl
  | none =>
    simp only [Except.bind, Plan.bind_eq, Plan.eval_bind, eval_global]
    rfl

end Service
end FleetBoot
