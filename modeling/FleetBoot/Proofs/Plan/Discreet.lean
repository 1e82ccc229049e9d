import FleetBoot.Proofs.Plan.Reads

/-! Plans that keep back how a call failed. Two runs whose calls fail alike, but in other ways,
leave the same world and come to the same result, or to errors that are as good as each other. -/
namespace FleetBoot

/-- The service makes no difference between this failure and others of its sort: any of the object
store, and any of the database but that a key is taken. -/
def Call.Internal : (c : Call) → c.Error → Prop
  | .presign _, _ | .fetch _ _, _ => True
  | .find _ _ _, e | .networkDefault _ _, e | .definition _, e | .available _, e | .insert _, e
  | .update _, e | .parameters _, e | .create _, e | .delete _, e => StoreError.isUnique e = false

/-- The same delays and crashes, and the same calls fail, but maybe for other reasons. -/
structure Conditions.Matching (a b : Conditions) : Prop where
  delay : a.delay = b.delay
  crashes : a.crashes = b.crashes
  reply : ∀ c : Call, a.reply c = b.reply c ∨ ∃ e e', a.reply c = some (.error e) ∧
    b.reply c = some (.error e') ∧ c.Internal e ∧ c.Internal e'

namespace World
variable {a b : Conditions}

/-- A call is answered the same, or it fails in both runs and changes nothing. -/
theorem answer_matching (h : a.Matching b) (w : World) (c : Call) :
    w.answer a c = w.answer b c ∨ ∃ e e', c.Internal e ∧ c.Internal e' ∧
      w.answer a c = (.error e, w) ∧ w.answer b c = (.error e', w) := by
  rcases h.reply c with hsame | ⟨e, e', ha, hb, he, he'⟩
  · left
    simp only [answer, hsame]
  · right
    exact ⟨e, e', he, he', by simp only [answer, ha], by simp only [answer, hb]⟩

theorem writeBack_matching (h : a.Matching b) (w : World) (d : Deadline) {k : Kind}
    (row : Assignment k) : (w.writeBack a d row).2 = (w.writeBack b d row).2 := by
  have hanswer (v : World) : (v.answer a (.insert row)).2 = (v.answer b (.insert row)).2 := by
    rcases answer_matching h v (.insert row) with hsame | ⟨e, e', -, -, ha, hb⟩
    · rw [hsame]
    · rw [ha, hb]
  have hadmits : a.admits row = b.admits row := by
    have hreply : (a.reply (.insert row)).isNone = (b.reply (.insert row)).isNone := by
      rcases h.reply (.insert row) with hsame | ⟨e, e', ha, hb, -, -⟩
      · rw [hsame]
      · rw [ha, hb]
        rfl
    simp only [Conditions.admits, h.delay, h.crashes, hreply]
  unfold writeBack
  simp only [h.delay, h.crashes, hadmits]
  split
  · split
    · rfl
    · split
      · rfl
      · exact hanswer _
  · rfl

end World

namespace Plan
variable {ε ε' α β : Type} {alike : ε → ε → Prop} {alike' : ε' → ε' → Prop}

/-- Whatever the answers, what the plan does after a failure does not depend on which it was, or it
ends there in errors that are alike. The outcome of a write-back makes no difference. -/
inductive Discreet (alike : ε → ε → Prop) : Plan ε α → Prop where
  | done (a : α) : Discreet alike (.done a)
  | fail {e : ε} (he : alike e e) : Discreet alike (.fail e)
  | call {c : Call} {next : c.Answer → Plan ε α} (hnext : ∀ a, Discreet alike (next a))
      (hsame : ∀ e e', c.Internal e → c.Internal e' → next (.error e) = next (.error e') ∨
        ∃ x y, next (.error e) = .fail x ∧ next (.error e') = .fail y ∧ alike x y) :
      Discreet alike (.call c next)
  | writeBack {k : Kind} {row : Assignment k} {next : WriteBack → Plan ε α}
      (hnext : ∀ o, Discreet alike (next o)) (hsame : ∀ o o', next o = next o') :
      Discreet alike (.writeBack row next)

theorem Discreet.bind {p : Plan ε α} {f : α → Plan ε β} (hp : p.Discreet alike)
    (hf : ∀ a, (f a).Discreet alike) : (p.bind f).Discreet alike := by
  induction hp with
  | done a => exact hf a
  | fail he => exact .fail he
  | call _ hsame ih =>
    refine .call ih fun e e' he he' => ?_
    rcases hsame e e' he he' with heq | ⟨x, y, hx, hy, hxy⟩
    · exact .inl (congrArg (Plan.bind · f) heq)
    · exact .inr ⟨x, y, congrArg (Plan.bind · f) hx, congrArg (Plan.bind · f) hy, hxy⟩
  | writeBack _ hsame ih =>
    exact .writeBack ih fun o o' => congrArg (Plan.bind · f) (hsame o o')

theorem Discreet.mapError {p : Plan ε α} {f : ε → ε'} (hp : p.Discreet alike)
    (hf : ∀ x y, alike x y → alike' (f x) (f y)) : (p.mapError f).Discreet alike' := by
  induction hp with
  | done a => exact .done a
  | fail he => exact .fail (hf _ _ he)
  | call _ hsame ih =>
    refine .call ih fun e e' he he' => ?_
    rcases hsame e e' he he' with heq | ⟨x, y, hx, hy, hxy⟩
    · exact .inl (congrArg (Plan.mapError f) heq)
    · exact .inr ⟨f x, f y, congrArg (Plan.mapError f) hx, congrArg (Plan.mapError f) hy,
        hf x y hxy⟩
  | writeBack _ hsame ih =>
    exact .writeBack ih fun o o' => congrArg (Plan.mapError f) (hsame o o')

/-- Two runs of a discreet plan end in the same world and come to the same, or to errors that are
alike. -/
theorem Discreet.run {p : Plan ε α} (hp : p.Discreet alike) {a b : Conditions} (h : a.Matching b)
    (d : Deadline) (w : World) :
    (p.run a d w).2 = (p.run b d w).2 ∧ ((p.run a d w).1 = (p.run b d w).1 ∨
      ∃ x y, (p.run a d w).1 = some (.error x) ∧ (p.run b d w).1 = some (.error y) ∧
        alike x y) := by
  induction hp generalizing w with
  | done a => exact ⟨rfl, .inl rfl⟩
  | fail he => exact ⟨rfl, .inl rfl⟩
  | @call c next _ hsame ih =>
    rw [run_call, run_call, h.delay]
    dsimp only
    split
    · rcases World.answer_matching h (w.elapse (d.wait w.now (b.delay c)).time) c with
        heq | ⟨e, e', he, he', ha, hb⟩
      · rw [heq]
        exact ih _ _
      · rw [ha, hb]
        dsimp only
        rcases hsame e e' he he' with hnext | ⟨x, y, hx, hy, hxy⟩
        · rw [hnext]
          exact ih _ _
        · rw [hx, hy]
          exact ⟨rfl, .inr ⟨x, y, rfl, rfl, hxy⟩⟩
    · exact ⟨rfl, .inl rfl⟩
  | writeBack _ hsame ih =>
    rw [run_writeBack, run_writeBack]
    dsimp only
    rw [World.writeBack_matching h, hsame _ (w.writeBack b d _).1]
    exact ih _ _

end Plan
end FleetBoot
