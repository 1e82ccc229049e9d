import FleetBoot.Proofs.Service.Idempotence
import FleetBoot.Proofs.Service.Operation
import FleetBoot.Proofs.Store.Registration

/-! Which default the networks around an address give, by the calls that filled the tables. -/
namespace FleetBoot

/-- The entry of one kind. -/
def NetworkDefaults.get : NetworkDefaults → (k : Kind) → Option k.Entry
  | found, .payload => found.payload
  | found, .image => found.image

namespace Registration

theorem exists_network_of_row? {k : Kind} {c : Registration} {row : NetworkRow k}
    (h : c.row? k = some row) : ∃ d, c = network d := by
  cases c with
  | entry e => cases h
  | network d => exact ⟨d, rfl⟩

end Registration

/-- A default of this kind for a network of this length around the address, and the entry of its
target. -/
structure Candidate (start : Store) (calls : List Registration) (k : Kind) (ip : Address)
    (d : NetworkDefault) (length : Nat) (e : k.Entry) : Prop where
  registered : .network d ∈ calls
  target : d.target.key? k = some (Kind.keyOf e)
  known : e ∈ (start.shelf k).catalog ∨ .entry e ∈ calls
  block : ∃ c, Cidr.parse? d.cidr = some c ∧ c.contains ip = true ∧ c.length = length

/-- A candidate for a network than which no candidate's is smaller. -/
def Nearest (start : Store) (calls : List Registration) (k : Kind) (ip : Address)
    (d : NetworkDefault) (length : Nat) (e : k.Entry) : Prop :=
  Candidate start calls k ip d length e ∧
    ∀ d' length' e', Candidate start calls k ip d' length' e' → length' ≤ length

section Calls
variable {start t : Store} {calls : List Registration} {k : Kind} {ip : Address}
  {d d' : NetworkDefault} {n n' : Nat} {e e' : k.Entry}

theorem Store.canonical_of_enterAll (hnew : (start.shelf k).networks = [])
    (h : start.enterAll calls = .ok t) : (t.shelf k).Canonical := by
  intro row hrow
  rw [(enterAll_ok h).2.1 k, Shelf.entered, hnew, List.nil_append] at hrow
  obtain ⟨call, -, hcall⟩ := List.mem_filterMap.mp hrow
  obtain ⟨d, rfl⟩ := Registration.exists_network_of_row? hcall
  obtain ⟨c, -, hsubnet, -⟩ := Registration.row?_eq_some_iff.mp hcall
  exact ⟨c, hsubnet⟩

/-- The candidates are the rows that cover the address. -/
theorem candidate_iff (hstart : start.Keyed) (hnew : (start.shelf k).networks = [])
    (h : start.enterAll calls = .ok t) :
    Candidate start calls k ip d n e ↔ .network d ∈ calls ∧
      ∃ row ∈ (t.shelf k).networks, (Registration.network d).row? k = some row ∧
        (t.shelf k).covering ip row = some (n, e) := by
  obtain ⟨-, ht, hkeyed⟩ := Store.enterAll_ok h
  have hlookup (key : k.Key) : (t.shelf k).lookup? key = some e ↔
      (e ∈ (start.shelf k).catalog ∨ .entry e ∈ calls) ∧ Kind.keyOf e = key := by
    rw [((hkeyed hstart).shelf k).lookup?_eq_some_iff, ht k, Shelf.entered, List.mem_append,
      List.mem_filterMap]
    simp only [Registration.added?_eq_some_iff, exists_eq_right]
  constructor
  · rintro ⟨hcall, htarget, hknown, c, hc, hip, hn⟩
    let row : NetworkRow k := ⟨c.text, Kind.keyOf e⟩
    have hrow : (Registration.network d).row? k = some row :=
      Registration.row?_eq_some_iff.mpr ⟨c, hc, rfl, htarget⟩
    refine ⟨hcall, row, ?_, hrow, Shelf.covering_eq_some_iff.mpr ?_⟩
    · rw [ht k, Shelf.entered, hnew, List.nil_append]
      exact List.mem_filterMap.mpr ⟨_, hcall, hrow⟩
    · exact ⟨(hlookup _).mpr ⟨hknown, rfl⟩, c, Cidr.parse?_text c, hip, hn⟩
  · rintro ⟨hcall, row, -, hrow, hcovering⟩
    obtain ⟨c, hc, hsubnet, htarget⟩ := Registration.row?_eq_some_iff.mp hrow
    obtain ⟨he, b, hb, hip, hn⟩ := Shelf.covering_eq_some_iff.mp hcovering
    obtain ⟨hknown, hkey⟩ := (hlookup _).mp he
    rw [hsubnet, Cidr.parse?_text] at hb
    cases hb
    exact ⟨hcall, hkey ▸ htarget, hknown, c, hc, hip, hn⟩

/-- Every row that covers the address is a candidate. -/
theorem exists_candidate (hstart : start.Keyed) (hnew : (start.shelf k).networks = [])
    (h : start.enterAll calls = .ok t) {row : NetworkRow k} (hrow : row ∈ (t.shelf k).networks)
    (hcovering : (t.shelf k).covering ip row = some (n, e)) :
    ∃ d, (Registration.network d).row? k = some row ∧ Candidate start calls k ip d n e := by
  have hmem := hrow
  rw [(Store.enterAll_ok h).2.1 k, Shelf.entered, hnew, List.nil_append] at hmem
  obtain ⟨call, hcall, hd⟩ := List.mem_filterMap.mp hmem
  obtain ⟨d, rfl⟩ := Registration.exists_network_of_row? hd
  exact ⟨d, hd, (candidate_iff hstart hnew h).mpr ⟨hcall, row, hrow, hd, hcovering⟩⟩

/-- Two calls cannot both have added one row. -/
theorem eq_of_row? (hstart : start.Keyed) (hnew : (start.shelf k).networks = [])
    (h : start.enterAll calls = .ok t) {row : NetworkRow k} (hcall : .network d ∈ calls)
    (hcall' : .network d' ∈ calls) (hrow : (Registration.network d).row? k = some row)
    (hrow' : (Registration.network d').row? k = some row) : d = d' := by
  obtain ⟨-, ht, hkeyed⟩ := Store.enterAll_ok h
  have hnodup : ((t.shelf k).networks.map NetworkRow.subnet).Nodup :=
    ((hkeyed hstart).shelf k).networks
  rw [ht k, Shelf.entered, hnew, List.nil_append] at hnodup
  have hpairwise : calls.Pairwise fun c c' => ∀ row ∈ c.row? k, ∀ row' ∈ c'.row? k, row ≠ row' :=
    List.pairwise_filterMap.mp (List.Nodup.of_map _ hnodup)
  by_contra hne
  have hsymm : Std.Symm fun c c' : Registration =>
      ∀ row ∈ c.row? k, ∀ row' ∈ c'.row? k, row ≠ row' :=
    ⟨fun _ _ hcc row hr row' hr' => (hcc row' hr' row hr).symm⟩
  exact hpairwise.forall hcall hcall' (fun heq => hne (Registration.network.inj heq)) row hrow row
    hrow' rfl

theorem networkDefault_eq_some_iff_nearest (hstart : start.Keyed)
    (hnew : (start.shelf k).networks = []) (h : start.enterAll calls = .ok t) :
    (t.shelf k).networkDefault ip = some e ↔ ∃ d n, Nearest start calls k ip d n e := by
  have hkeyed := ((Store.enterAll_ok h).2.2 hstart).shelf k
  rw [Shelf.networkDefault_eq_some_iff hkeyed (Store.canonical_of_enterAll hnew h)]
  constructor
  · rintro ⟨row, hrow, n, hcovering, hmax⟩
    obtain ⟨d, -, hd⟩ := exists_candidate hstart hnew h hrow hcovering
    refine ⟨d, n, hd, fun d' n' e' hd' => ?_⟩
    obtain ⟨-, row', hrow', -, hcovering'⟩ := (candidate_iff hstart hnew h).mp hd'
    exact hmax row' hrow' n' e' hcovering'
  · rintro ⟨d, n, hd, hmax⟩
    obtain ⟨-, row, hrow, -, hcovering⟩ := (candidate_iff hstart hnew h).mp hd
    refine ⟨row, hrow, n, hcovering, fun row' hrow' n' e' hcovering' => ?_⟩
    obtain ⟨d', -, hd'⟩ := exists_candidate hstart hnew h hrow' hcovering'
    exact hmax d' n' e' hd'

theorem networkDefault_eq_none_iff (hstart : start.Keyed)
    (hnew : (start.shelf k).networks = []) (h : start.enterAll calls = .ok t) :
    (t.shelf k).networkDefault ip = none ↔ ∀ d n e, ¬ Candidate start calls k ip d n e := by
  constructor
  · intro hnone d n e hd
    obtain ⟨-, row, hrow, -, hcovering⟩ := (candidate_iff hstart hnew h).mp hd
    rw [Shelf.networkDefault, Option.map_eq_none_iff] at hnone
    have hnil := (Shelf.foldl_longer_eq_none hnone).2
    exact absurd (hnil ▸ List.mem_filterMap.mpr ⟨row, hrow, hcovering⟩) List.not_mem_nil
  · intro hall
    cases hsome : (t.shelf k).networkDefault ip with
    | none => rfl
    | some e =>
      obtain ⟨d, n, hd, -⟩ := (networkDefault_eq_some_iff_nearest hstart hnew h).mp hsome
      exact absurd hd (hall d n e)

/-- Candidates for networks of one length are one and the same. -/
theorem Candidate.eq (hstart : start.Keyed) (hnew : (start.shelf k).networks = [])
    (h : start.enterAll calls = .ok t) (hd : Candidate start calls k ip d n e)
    (hd' : Candidate start calls k ip d' n e') : d = d' ∧ e = e' := by
  obtain ⟨hcall, row, hmem, hrow, hcovering⟩ := (candidate_iff hstart hnew h).mp hd
  obtain ⟨hcall', row', hmem', hrow', hcovering'⟩ := (candidate_iff hstart hnew h).mp hd'
  obtain rfl : row = row' := Shelf.eq_of_covering (((Store.enterAll_ok h).2.2 hstart).shelf k)
    (Store.canonical_of_enterAll hnew h) hmem hmem' hcovering hcovering'
  refine ⟨eq_of_row? hstart hnew h hcall hcall' hrow hrow', ?_⟩
  cases hcovering.symm.trans hcovering'
  rfl

theorem Nearest.eq (hstart : start.Keyed) (hnew : (start.shelf k).networks = [])
    (h : start.enterAll calls = .ok t) (hd : Nearest start calls k ip d n e)
    (hd' : Nearest start calls k ip d' n' e') : d = d' ∧ e = e' := by
  obtain rfl : n = n' := Nat.le_antisymm (hd'.2 d n e hd.1) (hd.2 d' n' e' hd'.1)
  exact hd.1.eq hstart hnew h hd'.1

theorem networkDefault_enterAll_perm {calls' : List Registration} {t' : Store}
    (hstart : start.Keyed) (hnew : (start.shelf k).networks = [])
    (h : start.enterAll calls = .ok t) (h' : start.enterAll calls' = .ok t')
    (hperm : calls.Perm calls') (ip : Address) :
    (t'.shelf k).networkDefault ip = (t.shelf k).networkDefault ip := by
  obtain ⟨-, ht, hkeyed⟩ := Store.enterAll_ok h
  obtain ⟨-, ht', hkeyed'⟩ := Store.enterAll_ok h'
  obtain ⟨hcatalog, hnetworks⟩ := (start.shelf k).entered_perm hperm
  rw [← ht k, ← ht' k] at hcatalog hnetworks
  exact (Shelf.networkDefault_perm ((hkeyed hstart).shelf k) ((hkeyed' hstart).shelf k)
    (Store.canonical_of_enterAll hnew h) hcatalog hnetworks ip).symm

end Calls

namespace Service
variable {k : Kind} {w : World} {conditions : Conditions}

/-- Asked for the defaults around an address, the service says what the tables have. -/
theorem run_networkDefaults (hc : conditions.Faultless) (hw : w.landings = []) (ip : Address) :
    ∃ found : NetworkDefaults, ((networkDefaults ip).run conditions .never w).1 = some (.ok found) ∧
      ∀ k, found.get k = (w.store.shelf k).networkDefault ip := by
  obtain ⟨v, hv, -, -⟩ := Plan.run_reads (only_networkDefaults ip) hw
    (Deadline.passed_never (w.now + (networkDefaults ip).duration conditions (w.answers conditions)))
  have hrequest (k : Kind) : (Plan.request (.networkDefault k ip)).eval (w.answers conditions) =
      .ok ((w.store.shelf k).networkDefault ip) := by
    rw [Plan.eval_request, answers_networkDefault hc]
    rfl
  refine ⟨⟨(w.store.shelf .payload).networkDefault ip, (w.store.shelf .image).networkDefault ip⟩,
    ?_, fun k => by cases k <;> rfl⟩
  rw [hv, networkDefaults, Plan.bind_eq, Plan.eval_bind, hrequest]
  dsimp only [Except.bind]
  rw [Plan.bind_eq, Plan.eval_bind, hrequest]
  rfl

/-- A device without a row is given the default that its network has, or else the one for all. -/
theorem delivers_default (s : Service) (hc : conditions.Faultless) (hw : w.landings = [])
    {mac : String} (hrow : (w.store.shelf k).row? mac = none) (caller : Option Address) :
    s.Delivers (w.answers conditions) mac (.mac mac)
      ((w.store.shelf k).defaultEntry (s.globalEntry (w.answers conditions) k) caller)
      (((s.cascade k).resolve (.mac mac) caller).run conditions .never w).1 := by
  have h := delivers_mac (k := k) s hc hw mac caller
  rwa [Shelf.choice_of_none hrow] at h

/-- Around an address the default of the longest block wins whose target is in the catalog, and there
is none only if no such block holds the address. There is one such default, so neither the order of
the calls matters nor in which of two forms the address is written. What the service says of an
address is what a device without a row is given that calls from there. -/
theorem network_default_exact (start t : Store) (calls : List Registration) (hstart : start.Keyed)
    (hnew : ∀ k, (start.shelf k).networks = []) (h : start.enterAll calls = .ok t) :
    (∀ (k : Kind) (ip : Address),
      (∀ e, (t.shelf k).networkDefault ip = some e ↔ ∃ d n, Nearest start calls k ip d n e) ∧
      ((t.shelf k).networkDefault ip = none ↔ ∀ d n e, ¬ Candidate start calls k ip d n e) ∧
      ∀ d d' n n' e e', Nearest start calls k ip d n e → Nearest start calls k ip d' n' e' →
        d = d' ∧ e = e') ∧
    (∀ calls', calls.Perm calls' → ∃ t', start.enterAll calls' = .ok t' ∧
      ∀ k ip, (t'.shelf k).networkDefault ip = (t.shelf k).networkDefault ip) ∧
    (∀ k bits, (t.shelf k).networkDefault (.v6 (Address.mapped bits)) =
      (t.shelf k).networkDefault (.v4 bits)) ∧
    ∀ (s : Service) (w : World) (conditions : Conditions) (ip : Address),
      w.store = t → w.landings = [] → conditions.Faultless →
        ∃ found, ((networkDefaults ip).run conditions .never w).1 = some (.ok found) ∧
          ∀ k, found.get k = (t.shelf k).networkDefault ip ∧
            ∀ raw mac, Identity.normalize raw = .ok (.mac mac) → (t.shelf k).row? mac = none →
              let ρ := w.answers conditions
              let resolution :=
                (((s.cascade k).resolve (.mac mac) (some ip)).run conditions .never w).1
              s.Delivers ρ mac (.mac mac)
                (match found.get k with
                | some e => (e, .network)
                | none => (s.globalEntry ρ k, .global)) resolution ∧
              ((s.resolve raw (some ip) k).run conditions .never w).1 =
                resolution.map (Except.map Resolution.answer) := by
  refine ⟨fun k ip => ⟨fun e => ?_, ?_, fun d d' n n' e e' hd hd' => ?_⟩, fun calls' hperm => ?_,
    fun k bits => Shelf.networkDefault_mapped _ bits, fun s w conditions ip hw hl hc => ?_⟩
  · exact networkDefault_eq_some_iff_nearest hstart (hnew k) h
  · exact networkDefault_eq_none_iff hstart (hnew k) h
  · exact hd.eq hstart (hnew k) h hd'
  · obtain ⟨t', ht'⟩ := Store.exists_enterAll_perm hstart h hperm
    exact ⟨t', ht', fun k ip => networkDefault_enterAll_perm hstart (hnew k) h ht' hperm ip⟩
  · subst hw
    obtain ⟨found, hrun, hfound⟩ := run_networkDefaults hc hl ip
    refine ⟨found, hrun, fun k => ⟨hfound k, fun raw mac hraw hrow => ⟨?_, ?_⟩⟩⟩
    · rw [hfound k]
      exact delivers_default s hc hl hrow (some ip)
    · rw [resolve_of_normalize hraw, Plan.run_map]

/-- Two blocks around an address, and a smaller one whose target is missing. -/
theorem network_default_exact_nested :
    let s := Service.ofConfig {}
    let site : Payload := ⟨"site", "/payloads/site"⟩
    let rack : Payload := ⟨"rack7", "/payloads/rack7"⟩
    let calls : List Registration := [.network ⟨"10.7.9.9/16", .payload "rack7"⟩,
      .entry (k := .payload) site, .network ⟨"10.0.0.0/8", .payload "site"⟩,
      .network ⟨"10.7.0.0/24", .payload "gone"⟩, .entry (k := .payload) rack]
    let ip : Address := .v4 0x0a070005
    Store.Keyed {} ∧ (∀ k, (Store.shelf {} k).networks = []) ∧
      ∃ t, Store.enterAll {} calls = .ok t ∧
        (∃ d n, Nearest {} calls .payload ip d n rack) ∧ t.payloads.networkDefault ip = some rack ∧
        (∃ t', Store.enterAll {} calls.reverse = .ok t' ∧
          t'.payloads.networkDefault ip = some rack) ∧
        t.payloads.networkDefault (.v6 (Address.mapped 0x0a070005)) = some rack ∧
        Identity.normalize "aabbccddeeff" = .ok (.mac "aabbccddeeff") ∧
        ∃ kept, ((s.payloads.resolve (.mac "aabbccddeeff") (some ip)).run {} .never
          { store := t }).1 = some (.ok ⟨.new "aabbccddeeff" rack, .network, kept⟩) := by
  intro s site rack calls ip
  have hstart : Store.Keyed {} :=
    ⟨fun k => by cases k <;> exact ⟨.nil, .nil, .nil⟩, .nil⟩
  have hnew : ∀ k, (Store.shelf {} k).networks = [] := fun k => by cases k <;> rfl
  let t : Store := { payloads := {
    catalog := [site, rack]
    networks := [⟨"10.7.0.0/16", "rack7"⟩, ⟨"10.0.0.0/8", "site"⟩, ⟨"10.7.0.0/24", "gone"⟩] } }
  have ht : Store.enterAll {} calls = .ok t := by
    subst calls site rack t
    cbv
  have hrack : t.payloads.networkDefault ip = some rack := by
    subst ip site rack t
    cbv
  have hrow : t.payloads.row? "aabbccddeeff" = none := rfl
  have hraw : Identity.normalize "aabbccddeeff" = .ok (.mac "aabbccddeeff") := by cbv
  obtain ⟨hexact, hperm, hmapped, hservice⟩ := network_default_exact {} t calls hstart hnew ht
  obtain ⟨t', ht', hsame⟩ := hperm calls.reverse calls.reverse_perm.symm
  obtain ⟨found, -, hfound⟩ := hservice s { store := t } {} ip rfl rfl fun _ _ => rfl
  obtain ⟨hget, hdelivers⟩ := hfound .payload
  obtain ⟨⟨hsigned, -⟩, -⟩ := hdelivers "aabbccddeeff" "aabbccddeeff" hraw hrow
  have hget : found.get .payload = some rack := hget.trans hrack
  rw [hget] at hsigned
  exact ⟨hstart, hnew, t, ht, ((hexact .payload ip).1 rack).mp hrack, hrack,
    ⟨t', ht', (hsame .payload ip).trans hrack⟩, (hmapped .payload _).trans hrack, hraw,
    hsigned trivial⟩

end Service
end FleetBoot
