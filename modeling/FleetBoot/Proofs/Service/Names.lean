import FleetBoot.Proofs.Canonical
import FleetBoot.Proofs.Service.Exact
import FleetBoot.Proofs.Service.Token
import FleetBoot.Proofs.Store.Change

/-! Two names for one device. Tokens that differ in their first sign are answered alike, and a token
is answered like the address of the row that it comes to. -/
namespace FleetBoot

/-- The same failure with another token in it. -/
def ServiceError.renamed (identity : Identity) : ServiceError → ServiceError
  | .notFound k _ => .notFound k identity
  | .ambiguous _ addresses => .ambiguous identity.text addresses
  | e => e

/-- The host name in an answer, if there is one. -/
def Kind.hostName? : {k : Kind} → k.Answer → Option String
  | .payload, _ => none
  | .image, c => some c.hostname

namespace Service
variable {k : Kind} {s : Service} {w : World} {conditions : Conditions}
  {ρ : (c : Call) → c.Answer} {shelf : Shelf k} {raw token suffix : String}

/-- Of the name an answer shows the host name only. -/
theorem deliver_congr (s : Service) {identity identity' : Identity}
    (h : identity.hostName = identity'.hostName) (mac : String) (e : k.Entry) :
    (s.cascade k).deliver mac identity e = (s.cascade k).deliver mac identity' e := by
  cases k with
  | payload => rfl
  | image => simp only [cascade, images, h]

theorem hostName?_answer (ρ : (c : Call) → c.Answer) (mac : String) (identity : Identity)
    (e : k.Entry) : ∀ name ∈ Kind.hostName? (s.answer ρ mac identity e), name = identity.hostName := by
  cases k with
  | payload => exact nofun
  | image =>
    rintro name ⟨⟩
    rfl

/-- The first sign of a token shows in failures only. -/
theorem tokenResult_renamed (s : Service) (ρ : (c : Call) → c.Answer) (shelf : Shelf k)
    (token token' suffix : String) :
    s.tokenResult ρ shelf (.hostname token' suffix) =
      (s.tokenResult ρ shelf (.hostname token suffix)).mapError
        (ServiceError.renamed (.hostname token' suffix)) := by
  have hnamed : shelf.named (.hostname token' suffix) = shelf.named (.hostname token suffix) := rfl
  have hhost : Identity.hostName (.hostname token' suffix) =
      Identity.hostName (.hostname token suffix) := rfl
  rw [tokenResult, tokenResult, hnamed]
  rcases shelf.named (.hostname token suffix) with _ | ⟨a, _ | ⟨b, rows⟩⟩
  · rfl
  · dsimp only
    cases shelf.entryOf (s.globalEntry ρ k) a.key with
    | none => rfl
    | some e =>
      dsimp only
      rw [deliver_congr s hhost a.mac e]
      by_cases hsign : s.Signs ρ e
      · rw [eval_deliver_ok hsign]
        rfl
      · obtain ⟨cause, hcause⟩ := eval_deliver_error a.mac (.hostname token suffix) hsign
        rw [hcause]
        rfl
  · rfl

/-- The row that a token comes to is the one that it names. -/
theorem named_of_deviceRow (hc : conditions.Faultless) (hw : w.landings = []) {identity : Identity}
    {r : StoredRow k}
    (h : ((deviceRow k identity).run conditions .never w).1 = some (.ok (some r))) :
    (w.store.shelf k).named identity = [r.row] := by
  obtain ⟨v, hv, -, -⟩ := Plan.run_reads (only_deviceRow k identity) hw
    (Deadline.passed_never (w.now + (deviceRow k identity).duration conditions
      (w.answers conditions)))
  rw [hv] at h
  exact named_of_eval_deviceRow hc (Option.some.inj h)

/-- A token that is answered is answered from the one row that it names. -/
theorem resolution_of_named (hc : conditions.Faultless) (hw : w.landings = [])
    (hraw : Identity.normalize raw = .ok (.hostname token suffix)) {a : Assignment k}
    (hnamed : (w.store.shelf k).named (.hostname token suffix) = [a]) {e : k.Entry}
    (he : (w.store.shelf k).entryOf (s.globalEntry (w.answers conditions) k) a.key = some e)
    {caller : Option Address} {answer : k.Answer}
    (h : ((s.resolve raw caller k).run conditions .never w).1 = some (.ok answer)) :
    answer = s.answer (w.answers conditions) a.mac (.hostname token suffix) e ∧
      (((s.cascade k).resolve (.hostname token suffix) caller).run conditions .never w).1 =
        some (.ok ⟨answer, .device, none⟩) := by
  rw [run_token s hc hw hraw, tokenResult_of_named hnamed he] at h
  rw [run_resolve_token s hc hw, tokenResult_of_named hnamed he]
  by_cases hsign : s.Signs (w.answers conditions) e
  · rw [eval_deliver_ok hsign] at h ⊢
    cases h
    exact ⟨rfl, rfl⟩
  · obtain ⟨cause, hcause⟩ := eval_deliver_error a.mac (.hostname token suffix) hsign
    rw [hcause] at h
    cases h

/-- A token and the address of the one row that it names are answered alike. -/
theorem run_resolve_named (hc : conditions.Faultless) (hw : w.landings = [])
    (hkeyed : (w.store.shelf k).Keyed) (hraw : Identity.normalize raw = .ok (.hostname token suffix))
    {a : Assignment k} (hnamed : (w.store.shelf k).named (.hostname token suffix) = [a])
    (hmac : CanonicalMac a.mac) {e : k.Entry}
    (he : (w.store.shelf k).entryOf (s.globalEntry (w.answers conditions) k) a.key = some e)
    (caller caller' : Option Address) :
    (((s.cascade k).resolve (.mac a.mac) caller').run conditions .never w).1 =
      (((s.cascade k).resolve (.hostname token suffix) caller).run conditions .never w).1 := by
  obtain ⟨hmem, hselects⟩ := Shelf.mem_named (hnamed ▸ List.mem_cons_self)
  have hown : (w.store.shelf k).ownEntry (s.globalEntry (w.answers conditions) k) a.mac =
      some e := by
    rw [Shelf.ownEntry, hkeyed.row?_eq_some_iff.mpr ⟨hmem, rfl⟩, Option.bind_some, he]
  rw [run_resolve_own s hc hw hown, run_resolve_token s hc hw, tokenResult_of_named hnamed he,
    deliver_congr s (Identity.hostName_token hraw hmac hselects) a.mac e]

/-- Tokens with one suffix are answered alike, but that failures name the token that was asked for.
Where a token comes to a row under a canonical address and that row's entry is known, the address
itself is answered like the token, from the row of the device and with the host name that the address
has. -/
theorem token_names_device (s : Service) (w : World) (conditions : Conditions)
    (raw token suffix : String) (caller : Option Address)
    (hraw : Identity.normalize raw = .ok (.hostname token suffix)) (hc : conditions.Faultless)
    (hw : w.landings = []) (hkeyed : w.store.Keyed) :
    let resolution (identity : Identity) (caller : Option Address) :=
      (((s.cascade k).resolve identity caller).run conditions .never w).1
    let result (raw : String) (caller : Option Address) :=
      ((s.resolve raw caller k).run conditions .never w).1
    (∀ raw' token' caller', Identity.normalize raw' = .ok (.hostname token' suffix) →
      result raw' caller' = (result raw caller).map
        (Except.mapError (ServiceError.renamed (.hostname token' suffix)))) ∧
    ∀ r : StoredRow k,
      ((deviceRow k (.hostname token suffix)).run conditions .never w).1 = some (.ok (some r)) →
      CanonicalMac r.row.mac →
        Identity.normalize r.row.mac = .ok (.mac r.row.mac) ∧
        ∀ x, result raw caller = some x → x ≠ .error (.notFound k (.hostname token suffix)) →
          ∀ caller', result r.row.mac caller' = some x ∧
            ∀ answer, x = .ok answer →
              resolution (.hostname token suffix) caller = some (.ok ⟨answer, .device, none⟩) ∧
              resolution (.mac r.row.mac) caller' = some (.ok ⟨answer, .device, none⟩) ∧
              ∀ name ∈ Kind.hostName? answer, hostNameOf? r.row.mac = some name := by
  intro resolution result
  refine ⟨fun raw' token' caller' hraw' => ?_, fun r hr hmac => ?_⟩
  · change ((s.resolve raw' caller' k).run conditions .never w).1 =
      ((s.resolve raw caller k).run conditions .never w).1.map _
    rw [run_token s hc hw hraw', run_token s hc hw hraw,
      tokenResult_renamed s (w.answers conditions) (w.store.shelf k) token token' suffix]
    cases s.tokenResult (w.answers conditions) (w.store.shelf k) (.hostname token suffix) <;> rfl
  · have hnamed := named_of_deviceRow hc hw hr
    have hself : Identity.normalize r.row.mac = .ok (.mac r.row.mac) :=
      Identity.normalize_canonical hmac
    refine ⟨hself, fun x hx hfound caller' => ?_⟩
    cases he : (w.store.shelf k).entryOf (s.globalEntry (w.answers conditions) k) r.row.key with
    | none =>
      have htoken := (run_token (k := k) s hc hw hraw caller).symm.trans hx
      rw [tokenResult, hnamed] at htoken
      dsimp only at htoken
      rw [he] at htoken
      cases htoken
      exact absurd rfl hfound
    | some e =>
      have hsame : resolution (.mac r.row.mac) caller' =
          resolution (.hostname token suffix) caller :=
        run_resolve_named hc hw (hkeyed.shelf k) hraw hnamed hmac he caller caller'
      have hresult : result r.row.mac caller' = result raw caller := by
        simp only [result, resolve_of_normalize hself, resolve_of_normalize hraw, Plan.run_map]
        exact congrArg _ hsame
      refine ⟨hresult.trans hx, ?_⟩
      rintro answer rfl
      obtain ⟨rfl, hdevice⟩ := resolution_of_named hc hw hraw hnamed he hx
      refine ⟨hdevice, hsame.trans hdevice, fun name hname => ?_⟩
      have hselects := (Shelf.mem_named (hnamed ▸ List.mem_cons_self)).2
      rw [Identity.hostName_mac hmac, hostName?_answer _ _ _ _ name hname,
        Identity.hostName_token hraw hmac hselects]

/-- A row of the default image, asked for by two tokens and by its address. -/
theorem token_names_device_image :
    let s := Service.ofConfig {}
    let w : World := {
      store := { images := { assignments := [⟨"aabbccddeeff", ⟨"default", "default"⟩⟩] } } }
    let result (raw : String) := ((s.resolveImage raw none).run {} .never w).1
    Identity.normalize "gDDEEFF" = .ok (.hostname "gddeeff" "ddeeff") ∧
      Identity.normalize "xddeeff" = .ok (.hostname "xddeeff" "ddeeff") ∧
      Conditions.Faultless {} ∧ w.landings = [] ∧ w.store.Keyed ∧ CanonicalMac "aabbccddeeff" ∧
      ∃ c : BootConfig, result "gDDEEFF" = some (.ok c) ∧ result "xddeeff" = some (.ok c) ∧
        result "aabbccddeeff" = some (.ok c) ∧ hostNameOf? "aabbccddeeff" = some c.hostname ∧
        c.hostname = "gddeeff" := by
  intro s w result
  have hraw : Identity.normalize "gDDEEFF" = .ok (.hostname "gddeeff" "ddeeff") := by cbv
  have hraw' : Identity.normalize "xddeeff" = .ok (.hostname "xddeeff" "ddeeff") := by cbv
  have hc : Conditions.Faultless {} := fun _ _ => rfl
  have hkeyed : w.store.Keyed :=
    ⟨fun k => by cases k <;> exact ⟨by decide, by decide, by decide⟩, by decide⟩
  have hmac : CanonicalMac "aabbccddeeff" := by
    refine ⟨by decide, fun c hc => ?_⟩
    have hall : ("aabbccddeeff".toList.all fun c =>
        Text.isHexDigit c && decide (Text.Small c)) = true := by decide
    simpa using List.all_eq_true.mp hall c hc
  obtain ⟨hrenamed, hrow⟩ :=
    token_names_device (k := .image) s w {} _ _ _ none hraw hc rfl hkeyed
  have hdevice : ((deviceRow .image (.hostname "gddeeff" "ddeeff")).run {} .never w).1 =
      some (.ok (some ⟨⟨"aabbccddeeff", ⟨"default", "default"⟩⟩, none⟩)) := by
    subst w
    cbv
  have hentry : (w.store.shelf .image).entryOf (s.globalEntry (w.answers {}) .image)
      ⟨"default", "default"⟩ = some (s.globalEntry (w.answers {}) .image) := rfl
  have hsign : s.Signs (w.answers {}) (s.globalEntry (w.answers {}) .image) := fun _ _ => ⟨_, rfl⟩
  obtain ⟨c, hresult⟩ : ∃ c, result "gDDEEFF" = some (.ok c) := by
    have hrun := run_token (k := .image) s hc (w := w) rfl hraw none
    rw [tokenResult_of_named (named_of_deviceRow hc rfl hdevice) hentry,
      eval_deliver_ok hsign] at hrun
    exact ⟨_, hrun⟩
  obtain ⟨-, hsame⟩ := hrow _ hdevice hmac
  obtain ⟨haddress, hanswer⟩ := hsame _ hresult (by rintro ⟨⟩) none
  obtain ⟨-, -, hname⟩ := hanswer c rfl
  have hhost : hostNameOf? "aabbccddeeff" = some c.hostname := hname _ rfl
  refine ⟨hraw, hraw', hc, rfl, hkeyed, hmac, c, hresult, ?_, haddress, hhost, ?_⟩
  · exact (hrenamed "xddeeff" _ none hraw').trans (congrArg _ hresult)
  · have hgiven : hostNameOf? "aabbccddeeff" = some "gddeeff" := by cbv
    exact Option.some.inj (hhost.symm.trans hgiven)

end Service
end FleetBoot
