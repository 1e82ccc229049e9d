import FleetBoot.Proofs.Plan.Deadline
import FleetBoot.Proofs.Service.Operation
import Mathlib

/-! What time can do to a request. A deadline ends it early or changes nothing, and the write-back
of a resolution changes neither its answer nor when the answer is ready. -/
namespace FleetBoot

namespace Service
variable {k : Kind} {s : Service} {w : World} {conditions : Conditions} {d : Deadline}
  {ρ : (c : Call) → c.Answer} {mac : String} {caller : Option Address}

/-- For every operation: it ends by its deadline, with nothing or with what it would give at once and
without a deadline; and what ends with nothing has changed nothing and will change nothing. Of a
resolution the tier is the same too. -/
theorem deadline_bounds (s : Service) (conditions : Conditions) (timeout : Nat) (w : World)
    (hw : w.landings = []) :
    let d := Deadline.start w.now (some timeout)
    (∀ op : Operation,
      let ended := (op.plan s).run conditions d w
      ended.2.now ≤ w.now + timeout ∧
      (ended.1 = none ∨ ended.1 = ((op.plan s).run conditions.prompt .never w).1) ∧
      (ended.1 = none → ∀ t, ended.2.Comes t → t = w.store)) ∧
    ∀ (k : Kind) (identity : Identity) (caller : Option Address),
      let found (conditions : Conditions) (d : Deadline) :=
        (((s.cascade k).resolve identity caller).run conditions d w).1.map
          (Except.map fun r => (r.answer, r.tier))
      found conditions d = none ∨ found conditions d = found conditions.prompt .never := by
  intro d
  constructor
  · intro op ended
    refine ⟨?_, ?_, ?_⟩
    · exact Plan.run_now_le (op.plan s) conditions (Nat.le_add_right w.now timeout)
    · exact Plan.run_prompt (op.changesLast_plan s) (.refl w) hw d
    · intro hnone t ht
      rcases Plan.run_changes (op.changesLast_plan s) hw with ⟨hstore, hl⟩ | ⟨c, x, hx, -⟩
      · exact (World.comes_of_landings hl ht).trans hstore
      · cases hnone.symm.trans hx
  · intro k identity caller found
    have hfound (conditions : Conditions) (d : Deadline) : found conditions d =
        (((fun r => (r.answer, r.tier)) <$> (s.cascade k).resolve identity caller).run conditions d
          w).1 := by
      rw [Plan.run_map]
    rw [hfound, hfound]
    exact Plan.run_prompt (changesLast_resolve s identity caller Prod.mk) (.refl w) hw d

/-- A resolution whose look at the database takes 30 ms, with 10 ms to go and with 40. -/
theorem deadline_bounds_slow :
    let s := Service.ofConfig {}
    let w : World := { store := { payloads := { assignments := [⟨"001122334455", "rescue"⟩] } } }
    let op := Operation.resolve .payload "AA:BB:CC:DD:EE:FF" none
    let slow : Conditions := { delay := fun | .find _ _ _ => 30 | _ => 0 }
    let late := (op.plan s).run slow (.start 0 (some 10)) w
    let timely := (op.plan s).run slow (.start 0 (some 40)) w
    w.landings = [] ∧
      late.1 = none ∧ late.2.now ≤ 10 ∧ late.2.store = w.store ∧
      timely.1 = some (.ok ⟨"aabbccddeeff", "default", "default"⟩) ∧ timely.2.now ≤ 40 ∧
      timely.1 = ((op.plan s).run slow.prompt .never w).1 := by
  intro s w op slow late timely
  have hlate : late.1 = none := by
    subst late slow op w s
    cbv
  have htimely : timely.1 = some (.ok ⟨"aabbccddeeff", "default", "default"⟩) := by
    subst timely slow op w s
    cbv
  obtain ⟨hops, -⟩ := deadline_bounds s slow 10 w rfl
  obtain ⟨hnow, -, hunchanged⟩ := hops op
  obtain ⟨hops', -⟩ := deadline_bounds s slow 40 w rfl
  obtain ⟨hnow', hsame, -⟩ := hops' op
  refine ⟨rfl, hlate, hnow, hunchanged hlate _ (.inl rfl), htimely, hnow', ?_⟩
  rcases hsame with hnone | hprompt
  · cases htimely.symm.trans hnone
  · exact hprompt

end Service
end FleetBoot
