import FleetBoot.Proofs.Plan.Scope

/-! Runs of plans that keep to a scope, without a deadline. Two of them whose scopes are apart come
out the same in either order, and leave the same rows. -/
namespace FleetBoot

namespace Plan
variable {ε ε' α β : Type} {σ : Scope}

/-- Whatever the answers, all calls and write-backs keep to the scope. -/
inductive Confined (σ : Scope) : Plan ε α → Prop where
  | done (a : α) : Confined σ (.done a)
  | fail (e : ε) : Confined σ (.fail e)
  | call {c : Call} {next : c.Answer → Plan ε α} (hc : c.Confined σ)
      (hnext : ∀ a, Confined σ (next a)) : Confined σ (.call c next)
  | writeBack {k : Kind} {row : Assignment k} {next : WriteBack → Plan ε α}
      (hrow : (Call.insert row).Confined σ) (hnext : ∀ o, Confined σ (next o)) :
      Confined σ (.writeBack row next)

theorem Only.confined {p : Plan ε α} (hp : p.Only (Call.Confined σ)) : p.Confined σ := by
  induction p with
  | done a => exact .done a
  | fail e => exact .fail e
  | call c next ih => exact .call hp.1 fun a => ih a (hp.2 a)
  | writeBack row next => exact hp.elim

theorem Only.confined_of_objects {p : Plan ε α} (hp : p.Only Call.OnObjects) : p.Confined σ :=
  (hp.mono fun _ hc => hc.confined σ).confined

theorem Confined.bind {p : Plan ε α} {f : α → Plan ε β} (hp : p.Confined σ)
    (hf : ∀ a, (f a).Confined σ) : (p.bind f).Confined σ := by
  induction hp with
  | done a => exact hf a
  | fail e => exact .fail e
  | call hc _ ih => exact .call hc ih
  | writeBack hrow _ ih => exact .writeBack hrow ih

end Plan

namespace Scope
variable {σ τ : Scope} {conditions : Conditions} {v w : World} {c : Call}

theorem Agree.of_alike {v' w' : World} (h : σ.Agree v w) (hv : v'.Alike v) (hw : w'.Alike w) :
    σ.Agree v' w' := (agree_of_alike hv).trans (h.trans (agree_of_alike hw.symm))

theorem Agree.answer (h : σ.Agree v w) (conditions : Conditions) (hc : c.Confined σ) :
    (v.answer conditions c).1 = (w.answer conditions c).1 ∧
      σ.Agree (v.answer conditions c).2 (w.answer conditions c).2 := by
  unfold World.answer
  split
  · exact ⟨rfl, h⟩
  · exact h.perform hc

theorem spares_answer (conditions : Conditions) (w : World) (hc : c.Confined σ) :
    σ.Spares (w.answer conditions c).2 w := by
  unfold World.answer
  split
  · exact spares_of_alike (.refl w)
  · exact spares_perform w hc

/-- Without a deadline an insert that is not lost is waited for. Which are lost does not depend on
the database. -/
theorem writeBack_never (conditions : Conditions) {k : Kind} (row : Assignment k) :
    ∃ lost : Option WriteBack, ∀ w : World,
      let t := w.elapse (w.now + min (conditions.delay (.insert row)) WriteBack.limit)
      w.writeBack conditions .never row =
        match lost with
        | some outcome => (outcome, t)
        | none => (.ofAnswer (t.answer conditions (.insert row)).1,
            (t.answer conditions (.insert row)).2) := by
  by_cases hlimit : WriteBack.limit < conditions.delay (.insert row)
  · refine ⟨some .timedOut, fun w => ?_⟩
    simp [World.writeBack, hlimit]
  · by_cases hcrash : conditions.crashes (.insert row) = true
    · refine ⟨some .crashed, fun w => ?_⟩
      simp [World.writeBack, hlimit, hcrash]
    · refine ⟨none, fun w => ?_⟩
      simp [World.writeBack, hlimit, hcrash]

theorem Agree.writeBack {k : Kind} {row : Assignment k} (h : σ.Agree v w) (hw : w.landings = [])
    (conditions : Conditions) (hrow : (Call.insert row).Confined σ) :
    (v.writeBack conditions .never row).1 = (w.writeBack conditions .never row).1 ∧
      σ.Agree (v.writeBack conditions .never row).2 (w.writeBack conditions .never row).2 := by
  have ht (n m : Nat) : σ.Agree (v.elapse n) (w.elapse m) :=
    h.of_alike (World.elapse_alike (h.landings.trans hw) n) (World.elapse_alike hw m)
  obtain ⟨_ | outcome, hlost⟩ := writeBack_never conditions row
  · obtain ⟨hanswer, hagree⟩ := (ht _ _).answer conditions hrow
    rw [hlost, hlost]
    exact ⟨congrArg WriteBack.ofAnswer hanswer, hagree⟩
  · rw [hlost, hlost]
    exact ⟨rfl, ht _ _⟩

theorem spares_writeBack {k : Kind} {row : Assignment k} (conditions : Conditions)
    (hw : w.landings = []) (hrow : (Call.insert row).Confined σ) :
    σ.Spares (w.writeBack conditions .never row).2 w := by
  have ht (n : Nat) : σ.Spares (w.elapse n) w := spares_of_alike (World.elapse_alike hw n)
  obtain ⟨_ | outcome, hlost⟩ := writeBack_never conditions row
  · rw [hlost]
    exact (spares_answer conditions _ hrow).trans (ht _)
  · rw [hlost]
    exact ht _

end Scope

namespace Plan
variable {ε α β : Type} {σ τ : Scope} {conditions : Conditions} {v w : World} {p : Plan ε α}

/-- Where the scope agrees a plan of the scope comes out the same, and the scope still agrees. -/
theorem Confined.run_agree (hp : p.Confined σ) (h : σ.Agree v w) (hw : w.landings = []) :
    (p.run conditions .never v).1 = (p.run conditions .never w).1 ∧
      σ.Agree (p.run conditions .never v).2 (p.run conditions .never w).2 := by
  induction hp generalizing v w with
  | done a => exact ⟨rfl, h⟩
  | fail e => exact ⟨rfl, h⟩
  | @call c next hc _ ih =>
    obtain ⟨hanswer, hagree⟩ := (h.of_alike
      (World.elapse_alike (h.landings.trans hw) (v.now + conditions.delay c))
      (World.elapse_alike hw (w.now + conditions.delay c))).answer conditions hc
    rw [run_call, run_call]
    simp only [Deadline.wait_never, if_true]
    rw [hanswer]
    apply ih _ hagree
    rw [World.landings_answer]
    exact (World.elapse_alike hw _).landings.trans hw
  | writeBack hrow _ ih =>
    obtain ⟨houtcome, hagree⟩ := h.writeBack hw conditions hrow
    rw [run_writeBack, run_writeBack]
    dsimp only
    rw [houtcome]
    apply ih _ hagree
    exact (Scope.spares_writeBack conditions hw hrow).landings.trans hw

/-- A plan of the scope spares the rest. -/
theorem Confined.run_spares (hp : p.Confined σ) (hw : w.landings = []) :
    σ.Spares (p.run conditions .never w).2 w := by
  induction hp generalizing w with
  | done a => exact Scope.spares_of_alike (.refl w)
  | fail e => exact Scope.spares_of_alike (.refl w)
  | @call c next hc _ ih =>
    have ht := World.elapse_alike hw (w.now + conditions.delay c)
    have hanswer := (Scope.spares_answer conditions _ hc).trans (Scope.spares_of_alike ht)
    rw [run_call]
    simp only [Deadline.wait_never, if_true]
    exact (ih _ (hanswer.landings.trans hw)).trans hanswer
  | writeBack hrow _ ih =>
    have hkept := Scope.spares_writeBack conditions hw hrow
    rw [run_writeBack]
    exact (ih _ (hkept.landings.trans hw)).trans hkept

end Plan

/-- The same entries, parameters and network defaults, and the same rows of devices in some order.
-/
structure Store.SameRows (s t : Store) : Prop where
  catalog : ∀ k, (s.shelf k).catalog = (t.shelf k).catalog
  networks : ∀ k, (s.shelf k).networks = (t.shelf k).networks
  assignments : ∀ k, (s.shelf k).assignments.Perm (t.shelf k).assignments
  parameters : s.parameters = t.parameters

namespace Scope
variable {σ τ : Scope} {k : Kind} {row : Assignment k} {u v v' w w' : World}

/-- Lists that agree where `p` holds have an element of `p` as often. -/
theorem count_eq_of_filter_eq {p : Assignment k → Bool} {rows rows' : List (Assignment k)}
    (h : rows.filter p = rows'.filter p) (hp : p row = true) :
    rows.count row = rows'.count row := by
  rw [← List.count_filter hp, h, List.count_filter hp]

theorem Agree.count_eq (h : σ.Agree v w) (hk : k = σ.kind) (howns : σ.owns row.mac = true) :
    (v.store.shelf k).assignments.count row = (w.store.shelf k).assignments.count row := by
  subst hk
  exact count_eq_of_filter_eq h.rows howns

theorem Spares.count_eq (h : σ.Spares v w) (hout : k = σ.kind → σ.owns row.mac = false) :
    (v.store.shelf k).assignments.count row = (w.store.shelf k).assignments.count row := by
  by_cases hk : k = σ.kind
  · subst hk
    apply count_eq_of_filter_eq h.rows
    rw [hout rfl, Bool.not_false]
  · rw [h.others k hk]

/-- Databases that agree in both scopes, and were left alone but for these, have the same rows. -/
theorem sameRows (hσ : σ.Agree v v') (hτ : τ.Agree v v') (hvu : τ.Spares v w) (hwu : σ.Spares w u)
    (hvu' : σ.Spares v' w') (hwu' : τ.Spares w' u) : v.store.SameRows v'.store := by
  have hothers (k : Kind) (hkσ : k ≠ σ.kind) (hkτ : k ≠ τ.kind) :
      v.store.shelf k = v'.store.shelf k := by
    rw [hvu.others k hkτ, hwu.others k hkσ, hvu'.others k hkσ, hwu'.others k hkτ]
  refine ⟨fun k => ?_, fun k => ?_, fun k => ?_, ?_⟩
  · by_cases hkσ : k = σ.kind
    · subst hkσ
      exact hσ.catalog
    · by_cases hkτ : k = τ.kind
      · subst hkτ
        exact hτ.catalog
      · rw [hothers k hkσ hkτ]
  · by_cases hkσ : k = σ.kind
    · subst hkσ
      exact hσ.networks
    · by_cases hkτ : k = τ.kind
      · subst hkτ
        exact hτ.networks
      · rw [hothers k hkσ hkτ]
  · rw [List.perm_iff_count]
    intro row
    by_cases hrσ : k = σ.kind ∧ σ.owns row.mac = true
    · exact hσ.count_eq hrσ.1 hrσ.2
    · by_cases hrτ : k = τ.kind ∧ τ.owns row.mac = true
      · exact hτ.count_eq hrτ.1 hrτ.2
      -- a row of neither scope is as it was
      · have houtσ : k = σ.kind → σ.owns row.mac = false := by simpa using hrσ
        have houtτ : k = τ.kind → τ.owns row.mac = false := by simpa using hrτ
        rw [hvu.count_eq houtτ, hwu.count_eq houtσ, hvu'.count_eq houtσ, hwu'.count_eq houtτ]
  · rw [hvu.parameters, hwu.parameters, hvu'.parameters, hwu'.parameters]

end Scope

/-- Plans of scopes that are apart come out the same in either order, and leave the same rows and
nothing to come. -/
theorem Plan.Confined.commute {ε ε' α β : Type} {σ τ : Scope} {p : Plan ε α} {q : Plan ε' β}
    (conditions : Conditions) {w : World} (hp : p.Confined σ) (hq : q.Confined τ)
    (hapart : σ.Apart τ) (hw : w.landings = []) :
    let first := p.run conditions .never w
    let second := q.run conditions .never first.2
    let second' := q.run conditions .never w
    let first' := p.run conditions .never second'.2
    first.1 = first'.1 ∧ second.1 = second'.1 ∧ second.2.store.SameRows first'.2.store ∧
      second.2.landings = [] ∧ first'.2.landings = [] := by
  intro first second second' first'
  have hfirst : σ.Spares first.2 w := hp.run_spares hw
  have hsecond' : τ.Spares second'.2 w := hq.run_spares hw
  have hfw : first.2.landings = [] := hfirst.landings.trans hw
  have hsw : second'.2.landings = [] := hsecond'.landings.trans hw
  have hsecond : τ.Spares second.2 first.2 := hq.run_spares hfw
  have hfirst' : σ.Spares first'.2 second'.2 := hp.run_spares hsw
  -- the plan that runs second finds its scope as the other order has it
  obtain ⟨hresult', hagree'⟩ : second.1 = second'.1 ∧ τ.Agree second.2 second'.2 :=
    hq.run_agree (hfirst.agree hapart) hw
  obtain ⟨hresult, hagree⟩ : first'.1 = first.1 ∧ σ.Agree first'.2 first.2 :=
    hp.run_agree (hsecond'.agree hapart.symm) hw
  refine ⟨hresult.symm, hresult', ?_, hsecond.landings.trans hfw, hfirst'.landings.trans hsw⟩
  apply Scope.sameRows (σ := σ) (τ := τ) ?_ ?_ hsecond hfirst hfirst' hsecond'
  · exact (hsecond.agree hapart.symm).trans hagree.symm
  · exact hagree'.trans (hfirst'.agree hapart).symm

end FleetBoot
