import FleetBoot.Plan.Race
import FleetBoot.Proofs.Store.Grounded

/-! Plans that write no row that points at nothing. Of the keys that they write they were told one or
more calls earlier, and what was backed then is backed still, whatever other plans did meanwhile. -/
namespace FleetBoot

/-- The answers that are given without a call tell of no entries: they are failures, or there is
nothing to tell. -/
structure Conditions.Keyless (conditions : Conditions) : Prop where
  networkDefault : ∀ k ip e, conditions.reply (.networkDefault k ip) ≠ some (.ok (some e))
  available : ∀ k keys, conditions.reply (.available k) = some (.ok keys) → keys = []

/-- All rows point at something, those that are still to be inserted too. -/
structure World.Grounded (w : World) (free : Keys) : Prop where
  store : w.store.Grounded free
  landings : ∀ l ∈ w.landings, w.store.Grounds free l.row

/-- All rows of the second world point at something, and it backs what the first one backs. -/
structure World.Steady (free : Keys) (v w : World) : Prop where
  grounded : w.Grounded free
  grows : v.store.Grows free w.store

namespace World
variable {free : Keys} {k : Kind} {u v w : World} {row : Assignment k}

theorem Steady.refl (h : w.Grounded free) : w.Steady free w := ⟨h, .refl _⟩

theorem Steady.trans (h : u.Steady free v) (h' : v.Steady free w) : u.Steady free w :=
  ⟨h'.grounded, h.grows.trans h'.grows⟩

/-- Where no inserts have been started it is enough to look at the database. -/
theorem Grounded.steady (h : v.Grounded free) (hw : w.store.Grounded free)
    (hgrows : v.store.Grows free w.store) (hl : w.landings ⊆ v.landings) : v.Steady free w :=
  ⟨⟨hw, fun l hmem => (h.landings l (hl hmem)).mono hgrows⟩, hgrows⟩

theorem grounded_foldl_land {s : Store} {landings : List Landing} (hs : s.Grounded free)
    (hl : ∀ l ∈ landings, s.Grounds free l.row) :
    (landings.foldl Store.land s).Grounded free ∧
      s.Grows free (landings.foldl Store.land s) := by
  induction landings generalizing s with
  | nil => exact ⟨hs, .refl s⟩
  | cons l landings ih =>
    obtain ⟨hl, hrest⟩ := List.forall_mem_cons.mp hl
    have hgrows : s.Grows free (s.land l) := s.grows_land l
    obtain ⟨hgrounded, hmore⟩ := ih (hs.land hl) fun m hm => (hrest m hm).mono hgrows
    exact ⟨hgrounded, hgrows.trans hmore⟩

theorem Grounded.elapse (h : w.Grounded free) (t : Nat) : w.Steady free (w.elapse t) := by
  have hdue : ∀ l ∈ (w.landings.filter (·.due ≤ t)).mergeSort (·.due ≤ ·.due),
      w.store.Grounds free l.row := fun l hl =>
    h.landings l (List.mem_of_mem_filter (List.mem_mergeSort.mp hl))
  obtain ⟨hgrounded, hgrows⟩ := grounded_foldl_land h.store hdue
  exact h.steady hgrounded hgrows (List.filter_subset_self _)

theorem Grounded.land (h : w.Grounded free) (j : Nat) : w.Steady free (w.land j) := by
  unfold World.land
  split
  · next l hl =>
    have hrow : w.store.Grounds free l.row := h.landings l (List.mem_of_getElem? hl)
    exact h.steady (h.store.land hrow) (w.store.grows_land l) (List.eraseIdx_subset)
  · exact .refl h

theorem Grounded.answer (h : w.Grounded free) {c : Call} (hc : c.Grounded free w.store)
    (conditions : Conditions) : w.Steady free (w.answer conditions c).2 := by
  have hlandings : (w.answer conditions c).2.landings ⊆ w.landings := by
    rw [landings_answer]
    exact List.Subset.refl _
  rcases store_answer conditions w c with hsame | ⟨-, heffect⟩
  · apply h.steady _ _ hlandings
    · rw [hsame]
      exact h.store
    · rw [hsame]
      exact .refl _
  · apply h.steady _ _ hlandings
    · rw [heffect]
      exact Call.grounded_effect hc h.store
    · rw [heffect]
      exact Call.grows_effect hc

/-- What the database tells of it backs. -/
theorem tells_answer {conditions : Conditions} (hk : conditions.Keyless) (w : World) (c : Call) :
    c.Tells free (w.answer conditions c).2.store (w.answer conditions c).1 := by
  cases c with
  | networkDefault k ip =>
    intro e he
    unfold World.answer at he ⊢
    split at he
    · next hreply => exact absurd (hreply.trans (congrArg some he)) (hk.networkDefault k ip e)
    · have hlookup := Shelf.lookup?_networkDefault (Except.ok.inj he)
      exact .inr (Shelf.exists_lookup?_iff.mp ⟨e, hlookup⟩)
  | available k =>
    intro keys hkeys key hkey
    unfold World.answer at hkeys ⊢
    split at hkeys
    · next hreply =>
      rw [hk.available k keys (hreply.trans (congrArg some hkeys))] at hkey
      cases hkey
    · rw [← Except.ok.inj hkeys] at hkey
      exact .inr (Shelf.exists_lookup?_iff.mp (Shelf.mem_available.mp hkey))
  | _ => trivial

theorem Grounded.detach (h : w.Grounded free) (hrow : w.store.Grounds free row) (due : Nat) :
    w.Steady free { w with landings := w.landings ++ [⟨k, row, due⟩] } := by
  refine ⟨⟨h.store, fun l hl => ?_⟩, .refl _⟩
  rcases List.mem_append.mp hl with hl | hl
  · exact h.landings l hl
  · rw [List.mem_singleton.mp hl]
    exact hrow

theorem Grounded.writeBack (h : w.Grounded free) (hrow : w.store.Grounds free row)
    (conditions : Conditions) (d : Deadline) :
    w.Steady free (w.writeBack conditions d row).2 := by
  unfold World.writeBack
  dsimp only
  split
  · have htime := h.elapse (d.wait w.now (min (conditions.delay (.insert row)) WriteBack.limit)).time
    split
    · exact htime
    · split
      · exact htime
      · exact htime.trans
          (htime.grounded.answer (c := .insert row) (hrow.mono htime.grows) conditions)
  · split
    · have hstarted := h.detach hrow (w.now + conditions.delay (.insert row))
      exact hstarted.trans (hstarted.grounded.elapse _)
    · exact h.elapse _

end World

namespace Plan
variable {free : Keys} {ε α β : Type} {conditions : Conditions} {s t : Store} {w : World}
  {good : α → Store → Prop} {p : Plan ε α}

/-- Whatever becomes of the database between its calls, if only what was backed stays backed, the
plan writes no row that points at nothing, and `good` holds of its result. -/
inductive Grounded (free : Keys) (good : α → Store → Prop) : Plan ε α → Store → Prop where
  | done {a : α} {s : Store} (h : ∀ t, s.Grows free t → good a t) : Grounded free good (.done a) s
  | fail (e : ε) (s : Store) : Grounded free good (.fail e) s
  | call {c : Call} {next : c.Answer → Plan ε α} {s : Store} (hc : c.Grounded free s)
      (hn : ∀ a t, s.Grows free t → c.Tells free t a → Grounded free good (next a) t) :
      Grounded free good (.call c next) s
  | writeBack {k : Kind} {row : Assignment k} {next : WriteBack → Plan ε α} {s : Store}
      (hrow : s.Grounds free row)
      (hn : ∀ o t, s.Grows free t → Grounded free good (next o) t) :
      Grounded free good (.writeBack row next) s

theorem Grounded.mono (hp : p.Grounded free good s) (hst : s.Grows free t) :
    p.Grounded free good t := by
  cases hp with
  | done h => exact .done fun u htu => h u (hst.trans htu)
  | fail e => exact .fail e t
  | call hc hn => exact .call (hc.mono hst) fun a u htu => hn a u (hst.trans htu)
  | writeBack hrow hn => exact .writeBack (hrow.mono hst) fun o u htu => hn o u (hst.trans htu)

theorem Grounded.of_call {c : Call} {next : c.Answer → Plan ε α}
    (h : (Plan.call c next).Grounded free good s) : c.Grounded free s ∧
      ∀ a t, s.Grows free t → c.Tells free t a → (next a).Grounded free good t := by
  cases h with
  | call hc hn => exact ⟨hc, hn⟩

theorem Grounded.of_writeBack {k : Kind} {row : Assignment k} {next : WriteBack → Plan ε α}
    (h : (Plan.writeBack row next).Grounded free good s) : s.Grounds free row ∧
      ∀ o t, s.Grows free t → (next o).Grounded free good t := by
  cases h with
  | writeBack hrow hn => exact ⟨hrow, hn⟩

theorem Grounded.weaken {good' : α → Store → Prop} (hp : p.Grounded free good s)
    (h : ∀ a t, good a t → good' a t) : p.Grounded free good' s := by
  induction hp with
  | done hgood => exact .done fun t hst => h _ t (hgood t hst)
  | fail e s => exact .fail e s
  | call hc _ ih => exact .call hc ih
  | writeBack hrow _ ih => exact .writeBack hrow ih

/-- What follows a plan may use its result, and what was backed before it. -/
theorem Grounded.bind {mid : α → Store → Prop} {good : β → Store → Prop} {f : α → Plan ε β}
    (hp : p.Grounded free mid s)
    (hf : ∀ a t, s.Grows free t → mid a t → (f a).Grounded free good t) :
    (p.bind f).Grounded free good s := by
  induction hp with
  | @done a s h => exact hf a s (.refl s) (h s (.refl s))
  | fail e s => exact .fail e s
  | call hc _ ih =>
    refine .call hc fun a t hst htells => ih a t hst htells fun b u htu hb => ?_
    exact hf b u (hst.trans htu) hb
  | writeBack hrow _ ih =>
    refine .writeBack hrow fun o t hst => ih o t hst fun b u htu hb => ?_
    exact hf b u (hst.trans htu) hb

/-- What a plan does with its result at its end writes nothing. -/
theorem Grounded.map (hp : p.Grounded free good s) (f : α → β) :
    (p.bind fun a => .done (f a)).Grounded free (fun _ _ => True) s :=
  hp.bind fun _ _ _ _ => .done fun _ _ => trivial

/-- A plan that only reads writes nothing, and ends as it ends. -/
theorem Ends.grounded {good : α → Prop} (hend : p.Ends fun x => ∀ a, x = .ok a → good a)
    (hp : p.Only Call.Reads) (s : Store) : p.Grounded free (fun a _ => good a) s := by
  induction p generalizing s with
  | done a => exact .done fun _ _ => hend a rfl
  | fail e => exact .fail e s
  | call c next ih =>
    exact .call (Call.grounded_of_reads hp.1) fun a t _ _ => ih a (hend a) (hp.2 a) t
  | writeBack row next => exact hp.elim

theorem Only.grounded (hp : p.Only Call.Reads) (s : Store) :
    p.Grounded free (fun _ _ => True) s :=
  (ends_of_forall (fun _ _ _ => trivial) p).grounded hp s

/-- A step leaves all rows pointing at something, and the plan as good as it was. -/
theorem Grounded.advance (hp : p.Grounded free good w.store) (hw : w.Grounded free)
    (hk : conditions.Keyless) :
    w.Steady free (p.advance conditions w).2 ∧
      (p.advance conditions w).1.Grounded free good (p.advance conditions w).2.store := by
  cases hp with
  | done h => exact ⟨.refl hw, .done h⟩
  | fail e => exact ⟨.refl hw, .fail e w.store⟩
  | @call c next _ hc hn =>
    have hsteady := hw.answer hc conditions
    exact ⟨hsteady, hn _ _ hsteady.grows (World.tells_answer hk w c)⟩
  | @writeBack k row next _ hrow hn =>
    have hsteady := hw.answer (c := .insert row) hrow conditions
    exact ⟨hsteady, hn _ _ hsteady.grows⟩

theorem Grounded.detach (hp : p.Grounded free good w.store) (hw : w.Grounded free) :
    w.Steady free (p.detach w).2 ∧
      (p.detach w).1.Grounded free good (p.detach w).2.store := by
  cases hp with
  | done h => exact ⟨.refl hw, .done h⟩
  | fail e => exact ⟨.refl hw, .fail e w.store⟩
  | call hc hn => exact ⟨.refl hw, .call hc hn⟩
  | writeBack hrow hn =>
    have hsteady := hw.detach hrow w.now
    exact ⟨hsteady, hn _ _ hsteady.grows⟩

/-- So does a whole run, whether it comes to its end or not. -/
theorem Grounded.run (hp : p.Grounded free good w.store) (hw : w.Grounded free)
    (hk : conditions.Keyless) (d : Deadline) : w.Steady free (p.run conditions d w).2 := by
  induction p generalizing w with
  | done a => exact .refl hw
  | fail e => exact .refl hw
  | call c next ih =>
    obtain ⟨hc, hn⟩ := hp.of_call
    have htime := hw.elapse (d.wait w.now (conditions.delay c)).time
    rw [run_call]
    dsimp only
    split
    · have hanswer := htime.grounded.answer (hc.mono htime.grows) conditions
      have hsteady := htime.trans hanswer
      have hnext := hn _ _ hsteady.grows (World.tells_answer hk _ c)
      exact hsteady.trans (ih _ hnext hanswer.grounded)
    · exact htime
  | writeBack row next ih =>
    obtain ⟨hrow, hn⟩ := hp.of_writeBack
    have hsteady := hw.writeBack hrow conditions d
    exact hsteady.trans (ih _ (hn _ _ hsteady.grows) hsteady.grounded)

end Plan

namespace Race
variable {free : Keys} {ε α : Type} {conditions : Conditions} {r : Race ε α}

/-- All rows point at something, and no plan of the race is going to change that. -/
structure Grounded (r : Race ε α) (free : Keys) : Prop where
  world : r.world.Grounded free
  plans : ∀ p ∈ r.plans, p.Grounded free (fun _ _ => True) r.world.store

/-- The plans of a race need not know of what happens to its world. -/
theorem Grounded.withWorld (h : r.Grounded free) {w : World} (hw : r.world.Steady free w) :
    Grounded { r with world := w } free :=
  ⟨hw.grounded, fun p hp => (h.plans p hp).mono hw.grows⟩

theorem Grounded.stepWith (h : r.Grounded free) (i : Nat)
    {step : Plan ε α → World → Plan ε α × World}
    (hstep : ∀ p : Plan ε α, p.Grounded free (fun _ _ => True) r.world.store →
      r.world.Steady free (step p r.world).2 ∧
        (step p r.world).1.Grounded free (fun _ _ => True) (step p r.world).2.store) :
    (r.stepWith i step).Grounded free := by
  unfold Race.stepWith
  cases hp : r.plans[i]? with
  | none => exact h
  | some p =>
    obtain ⟨hsteady, hnext⟩ := hstep p (h.plans p (List.mem_of_getElem? hp))
    refine ⟨hsteady.grounded, fun q hq => ?_⟩
    rcases List.mem_or_eq_of_mem_set hq with hq | rfl
    · exact (h.plans q hq).mono hsteady.grows
    · exact hnext

theorem Grounded.move (h : r.Grounded free) (hk : conditions.Keyless) (v : Move) :
    (r.move conditions v).Grounded free := by
  cases v with
  | advance i => exact h.stepWith i fun p hp => hp.advance h.world hk
  | detach i => exact h.stepWith i fun p hp => hp.detach h.world
  | land j => exact h.withWorld (h.world.land j)

end Race
end FleetBoot
