import FleetBoot.Proofs.Plan.Reads
import FleetBoot.Proofs.Service.Choice
import FleetBoot.Proofs.Store.Pattern
import Mathlib

/-! A resolution by a token answers for the one row that it names. Where all addresses are spelled in
small letters these are the rows whose addresses end in the token's suffix; otherwise rows in capitals
can take the place of others among those that are looked at. -/
namespace FleetBoot

namespace Shelf
variable {k : Kind} {s : Shelf k} {identity : Identity} {raw token suffix : String}

/-- The rows that the identity selects among the first that it finds. -/
def named (s : Shelf k) (identity : Identity) : List (Assignment k) :=
  ((s.found identity).take (rowLimit identity)).filter fun a => identity.selects a.mac

theorem mem_named {a : Assignment k} (h : a ∈ s.named identity) :
    a ∈ s.assignments ∧ identity.selects a.mac = true := by
  obtain ⟨htake, hselects⟩ := List.mem_filter.mp h
  exact ⟨(mem_found.mp (List.mem_of_mem_take htake)).1, hselects⟩

/-- Which row a look-up comes to. -/
theorem selectRow_find (s : Shelf k) (identity : Identity) :
    selectRow identity (s.find identity (rowLimit identity)) =
      match s.named identity with
      | [] => .ok none
      | [a] => .ok (some (s.hydrate a))
      | rows => .error (.ambiguous identity.text (rows.map (·.mac))) := by
  have hfilter : (s.find identity (rowLimit identity)).filter
      (fun r => identity.selects r.row.mac) = (s.named identity).map s.hydrate := by
    rw [find_eq, List.filter_map]
    rfl
  rw [selectRow, hfilter]
  rcases s.named identity with _ | ⟨a, _ | ⟨b, rows⟩⟩
  · rfl
  · rfl
  · simp [hydrate]

/-- Without NULs in addresses the rows that a token names are the first of those that end in its
suffix. -/
theorem named_prefix (h : Identity.normalize raw = .ok (.hostname token suffix))
    (hmac : ∀ a ∈ s.assignments, ∀ c ∈ a.mac.toList, c.toNat ≠ 0) :
    (s.named (.hostname token suffix)).map (·.mac) <+: s.ending (.hostname token suffix) := by
  rw [← map_found fun a ha => finds_of_selects h (hmac a ha)]
  exact ((List.take_prefix _ _).filter _).map _

/-- They are all of these if not too many are found. -/
theorem named_all (h : Identity.normalize raw = .ok (.hostname token suffix))
    (hmac : ∀ a ∈ s.assignments, ∀ c ∈ a.mac.toList, c.toNat ≠ 0)
    (hfew : (s.found (.hostname token suffix)).length ≤ rowLimit (.hostname token suffix)) :
    (s.named (.hostname token suffix)).map (·.mac) = s.ending (.hostname token suffix) := by
  rw [← map_found fun a ha => finds_of_selects h (hmac a ha), named, List.take_of_length_le hfew]

/-- They are as many as are looked at if no address has capitals. -/
theorem named_plain (h : Identity.normalize raw = .ok (.hostname token suffix))
    (hmac : ∀ a ∈ s.assignments, Plain a.mac) :
    (s.named (.hostname token suffix)).map (·.mac) =
      (s.ending (.hostname token suffix)).take (rowLimit (.hostname token suffix)) := by
  have hall : ∀ a ∈ s.found (.hostname token suffix),
      (Identity.hostname token suffix).selects a.mac = true := by
    intro a ha
    obtain ⟨hmem, hfinds⟩ := mem_found.mp ha
    exact selects_of_finds h (hmac a hmem) hfinds
  rw [← map_found fun a ha => finds_of_selects h (hmac a ha).noNul, List.filter_eq_self.mpr hall,
    named, List.filter_eq_self.mpr fun a ha => hall a (List.mem_of_mem_take ha), List.map_take]

end Shelf

namespace Service
variable {k : Kind} {s : Service} {w : World} {conditions : Conditions}
  {ρ : (c : Call) → c.Answer} {shelf : Shelf k} {token suffix : String}

/-- How a resolution by a token comes out, by the rows that it names. -/
def tokenResult (s : Service) (ρ : (c : Call) → c.Answer) (shelf : Shelf k) (identity : Identity) :
    Except ServiceError (Resolution k.Answer) :=
  match shelf.named identity with
  | [] => .error (.notFound k identity)
  | [a] =>
      match shelf.entryOf (s.globalEntry ρ k) a.key with
      | none => .error (.notFound k identity)
      | some e => (((s.cascade k).deliver a.mac identity e).eval ρ).map fun x => ⟨x, .device, none⟩
  | rows => .error (.ambiguous identity.text (rows.map (·.mac)))

theorem tokenResult_of_named {identity : Identity} {a : Assignment k} {e : k.Entry}
    (hnamed : shelf.named identity = [a]) (he : shelf.entryOf (s.globalEntry ρ k) a.key = some e) :
    s.tokenResult ρ shelf identity =
      (((s.cascade k).deliver a.mac identity e).eval ρ).map fun x => ⟨x, .device, none⟩ := by
  rw [tokenResult, hnamed]
  dsimp only
  rw [he]

theorem only_resolve_token (s : Service) (token suffix : String) (caller : Option Address) :
    ((s.cascade k).resolve (.hostname token suffix) caller).Only Call.Reads := by
  refine (only_deviceEntry s (.hostname token suffix)).bind fun own => ?_
  rcases own with _ | ⟨mac, e⟩
  · trivial
  · exact ((only_deliver s mac _ e).mono fun _ => Call.OnObjects.reads).bind fun _ => trivial

/-- Which row a look-up comes to, where the database finds it. -/
theorem eval_deviceRow {identity : Identity}
    (h : ρ (.find k identity (rowLimit identity)) = .ok (shelf.find identity (rowLimit identity))) :
    (deviceRow k identity).eval ρ =
      match shelf.named identity with
      | [] => .ok none
      | [a] => .ok (some (shelf.hydrate a))
      | rows => .error (.ambiguous identity.text (rows.map (·.mac))) := by
  rw [deviceRow, Plan.bind_eq, Plan.eval_bind, Plan.eval_request, h, ← Shelf.selectRow_find]
  exact Plan.eval_ofExcept ρ _

/-- A look-up that comes to a row comes to the one that the identity names. -/
theorem named_of_eval_deviceRow (hc : conditions.Faultless) {identity : Identity} {r : StoredRow k}
    (h : (deviceRow k identity).eval (w.answers conditions) = .ok (some r)) :
    (w.store.shelf k).named identity = [r.row] := by
  rw [eval_deviceRow (World.answers_eq_perform hc id w)] at h
  rcases hnamed : (w.store.shelf k).named identity with _ | ⟨a, _ | ⟨b, rows⟩⟩
  · rw [hnamed] at h
    cases h
  · rw [hnamed] at h
    cases h
    rfl
  · rw [hnamed] at h
    cases h

theorem eval_resolve_token (s : Service) (caller : Option Address)
    (h : ρ (.find k (.hostname token suffix) (rowLimit (.hostname token suffix))) =
      .ok (shelf.find (.hostname token suffix) (rowLimit (.hostname token suffix)))) :
    ((s.cascade k).resolve (.hostname token suffix) caller).eval ρ =
      s.tokenResult ρ shelf (.hostname token suffix) := by
  rw [Cascade.resolve, Plan.bind_eq, Plan.eval_bind, Cascade.deviceEntry_eq, Plan.eval_bind,
    eval_deviceRow h, tokenResult]
  rcases shelf.named (.hostname token suffix) with _ | ⟨a, _ | ⟨b, rows⟩⟩
  · rfl
  · have hentry : ((s.cascade k).ofRow (some (shelf.hydrate a))).eval ρ =
        .ok ((shelf.entryOf (s.globalEntry ρ k) a.key).map fun e => (a.mac, e)) :=
      eval_ofRow s ρ (some a)
    dsimp only [Except.bind]
    rw [hentry]
    cases shelf.entryOf (s.globalEntry ρ k) a.key with
    | none => rfl
    | some e => exact Plan.eval_bind ρ _ _
  · rfl

theorem run_resolve_token (s : Service) (hc : conditions.Faultless) (hw : w.landings = [])
    (token suffix : String) (caller : Option Address) :
    (((s.cascade k).resolve (.hostname token suffix) caller).run conditions .never w).1 =
      some (s.tokenResult (w.answers conditions) (w.store.shelf k) (.hostname token suffix)) := by
  have hd : Deadline.never.passed (w.now + ((s.cascade k).resolve (.hostname token suffix)
      caller).duration conditions (w.answers conditions)) = false := Deadline.passed_never _
  obtain ⟨v, hv, -, -⟩ := Plan.run_reads (only_resolve_token s token suffix caller) hw hd
  rw [hv, eval_resolve_token s caller (World.answers_eq_perform hc id w)]

theorem run_token (s : Service) (hc : conditions.Faultless) (hw : w.landings = []) {raw : String}
    (hraw : Identity.normalize raw = .ok (.hostname token suffix)) (caller : Option Address) :
    ((s.resolve raw caller k).run conditions .never w).1 =
      some ((s.tokenResult (w.answers conditions) (w.store.shelf k) (.hostname token suffix)).map
        Resolution.answer) := by
  rw [resolve_of_normalize hraw, Plan.run_map, run_resolve_token s hc hw]
  rfl

/-- A token is resolved by the rows that it names: none is not found, one is answered as far as its
entry is known and can be signed, and several are ambiguous. It names no row whose address does not
end in its suffix, and without NULs in addresses the first of those that do: all of them if not too
many rows are found, and as many as are looked at if no address has capitals. -/
theorem resolve_token_exact (s : Service) (w : World) (conditions : Conditions)
    (raw token suffix : String) (caller : Option Address)
    (hraw : Identity.normalize raw = .ok (.hostname token suffix)) (hc : conditions.Faultless)
    (hw : w.landings = []) :
    let identity := Identity.hostname token suffix
    let ρ := w.answers conditions
    let shelf := w.store.shelf k
    let named := shelf.named identity
    let ending := shelf.ending identity
    let result := ((s.resolve raw caller k).run conditions .never w).1
    (named = [] → result = some (.error (.notFound k identity))) ∧
    (∀ a, named = [a] →
      (shelf.entryOf (s.globalEntry ρ k) a.key = none →
        result = some (.error (.notFound k identity))) ∧
      ∀ e, shelf.entryOf (s.globalEntry ρ k) a.key = some e →
        (s.Signs ρ e → result = some (.ok (s.answer ρ a.mac identity e))) ∧
        (¬ s.Signs ρ e → ∃ cause, result = some (.error (.objectStore cause)))) ∧
    (2 ≤ named.length → result = some (.error (.ambiguous token (named.map (·.mac))))) ∧
    (∀ a ∈ named, a ∈ shelf.assignments ∧ identity.selects a.mac = true) ∧
    ((∀ a ∈ shelf.assignments, ∀ c ∈ a.mac.toList, c.toNat ≠ 0) →
      named.map (·.mac) <+: ending ∧
      ((shelf.found identity).length ≤ rowLimit identity → named.map (·.mac) = ending)) ∧
    ((∀ a ∈ shelf.assignments, Plain a.mac) →
      named.map (·.mac) = ending.take (rowLimit identity)) := by
  intro identity ρ shelf named ending result
  have hresult : result = some ((s.tokenResult ρ shelf identity).map Resolution.answer) :=
    run_token s hc hw hraw caller
  have hnamed : shelf.named identity = named := rfl
  rw [tokenResult, hnamed] at hresult
  refine ⟨?_, ?_, ?_, fun a ha => Shelf.mem_named ha, ?_, Shelf.named_plain hraw⟩
  · intro hnone
    rw [hresult, hnone]
    rfl
  · intro a hone
    rw [hone] at hresult
    dsimp only at hresult
    constructor
    · intro he
      rw [hresult, he]
      rfl
    · intro e he
      rw [he] at hresult
      dsimp only at hresult
      constructor
      · intro hsign
        rw [hresult, eval_deliver_ok hsign]
        rfl
      · intro hsign
        obtain ⟨cause, hcause⟩ := eval_deliver_error a.mac identity hsign
        refine ⟨cause, ?_⟩
        rw [hresult, hcause]
        rfl
  · intro hseveral
    rcases hrows : named with _ | ⟨a, _ | ⟨b, rows⟩⟩
    · simp [hrows] at hseveral
    · simp [hrows] at hseveral
    · rw [hresult, hrows]
      rfl
  · intro hmac
    exact ⟨Shelf.named_prefix hraw hmac, Shelf.named_all hraw hmac⟩

theorem resolve_token_exact_two :
    let s := Service.ofConfig {}
    let w : World := { store := { payloads := { assignments := [⟨"001122ddeeff", "rescue"⟩,
      ⟨"001122334455", "default"⟩, ⟨"aabbccddeeff", "default"⟩] } } }
    Identity.normalize "gDDEEFF" = .ok (.hostname "gddeeff" "ddeeff") ∧
      Conditions.Faultless {} ∧ w.landings = [] ∧
      (∀ a ∈ (w.store.shelf .payload).assignments, Plain a.mac) ∧
      ((s.resolvePayload "gDDEEFF" none).run {} .never w).1 =
        some (.error (.ambiguous "gddeeff" ["001122ddeeff", "aabbccddeeff"])) := by
  intro s w
  have hraw : Identity.normalize "gDDEEFF" = .ok (.hostname "gddeeff" "ddeeff") := by cbv
  have hc : Conditions.Faultless {} := fun _ _ => rfl
  have hplain : ∀ a ∈ (w.store.shelf .payload).assignments, Plain a.mac := by
    have hall : ((w.store.shelf .payload).assignments.all fun a => a.mac.toList.all fun c =>
        decide (c.toNat ≠ 0 ∧ Text.Small c)) = true := by
      subst w
      cbv
    intro a ha
    have hmac := List.all_eq_true.mp (List.all_eq_true.mp hall a ha)
    exact ⟨fun c hc => (of_decide_eq_true (hmac c hc)).1,
      fun c hc => (of_decide_eq_true (hmac c hc)).2⟩
  have hending : w.store.payloads.ending (.hostname "gddeeff" "ddeeff") =
      ["001122ddeeff", "aabbccddeeff"] := by
    subst w
    cbv
  obtain ⟨-, -, hseveral, -, -, hnamed⟩ :=
    resolve_token_exact (k := .payload) s w {} _ _ _ none hraw hc rfl
  have hmacs : ((w.store.shelf .payload).named (.hostname "gddeeff" "ddeeff")).map (·.mac) =
      ["001122ddeeff", "aabbccddeeff"] :=
    (hnamed hplain).trans (congrArg (List.take 16) hending)
  have hlength : ((w.store.shelf .payload).named (.hostname "gddeeff" "ddeeff")).length = 2 := by
    simpa using congrArg List.length hmacs
  have hresult := hseveral (Nat.le_of_eq hlength.symm)
  rw [hmacs] at hresult
  exact ⟨hraw, hc, rfl, hplain, hresult⟩

/-- Sixteen addresses in capitals hide the one address that ends in the suffix, and fifteen hide the
second of two. -/
theorem resolve_token_crowded :
    let s := Service.ofConfig {}
    let token := Identity.hostname "gddeeff" "ddeeff"
    let capitals := ["00DDEEFF", "01DDEEFF", "02DDEEFF", "03DDEEFF", "04DDEEFF", "05DDEEFF",
      "06DDEEFF", "07DDEEFF", "08DDEEFF", "09DDEEFF", "0ADDEEFF", "0BDDEEFF", "0CDDEEFF",
      "0DDDEEFF", "0EDDEEFF", "0FDDEEFF"]
    let table (addresses : List String) : World := { store := { payloads := {
      assignments := addresses.map fun mac => ⟨mac, "default"⟩ } } }
    let one := table (capitals ++ ["aabbccddeeff"])
    let two := table (capitals.take 15 ++ ["aabbccddeeff", "bbbbccddeeff"])
    one.store.payloads.ending token = ["aabbccddeeff"] ∧
      ((s.resolvePayload "gddeeff" none).run {} .never one).1 =
        some (.error (.notFound .payload token)) ∧
      two.store.payloads.ending token = ["aabbccddeeff", "bbbbccddeeff"] ∧
      ((s.resolvePayload "gddeeff" none).run {} .never two).1 =
        some (.ok ⟨"aabbccddeeff", "default", "default"⟩) := by
  exact ⟨by cbv, by cbv, by cbv, by cbv⟩

end Service
end FleetBoot
