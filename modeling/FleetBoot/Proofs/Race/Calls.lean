import FleetBoot.Service.Cascade
import FleetBoot.Proofs.Race.History

/-! What single calls do to a race: those that read, and the writes of rows. -/
namespace FleetBoot
variable {ε α : Type} {k : Kind} {conditions : Conditions}

theorem Conditions.Faultless.reaches (hc : conditions.Faultless) {c : Call} (ho : ¬ c.OnObjects) :
    conditions.reaches c = true := by
  rw [Conditions.reaches, hc c ho]
  rfl

namespace World

/-- An insert adds its row if the device has none, and is refused otherwise. -/
theorem answer_insert (hc : conditions.Faultless) {v w : World} {row : Assignment k}
    {a : Except StoreError Unit} (ha : w.answer conditions (.insert row) = (a, v)) :
    ((w.store.shelf k).row? row.mac = none ∧ conditions.inserts w.store row = true ∧ a = .ok () ∧
      v = { w with store := w.store.withShelf ((w.store.shelf k).withRow row) }) ∨
    ((∃ b, (w.store.shelf k).row? row.mac = some b) ∧ conditions.inserts w.store row = false ∧
      a = .error (.occupied (.assignments k)) ∧ v = w) := by
  rw [answer_eq_perform hc id, perform] at ha
  rw [Conditions.inserts, hc.reaches id]
  rcases w.store.insert_cases row with ⟨hrow, hi⟩ | ⟨hrow, hi⟩
  · rw [hi, commit] at ha
    cases ha
    exact .inl ⟨hrow, by rw [hi]; rfl, rfl, rfl⟩
  · rw [hi, commit] at ha
    cases ha
    exact .inr ⟨hrow, by rw [hi]; rfl, rfl, rfl⟩

/-- An update changes the row if the device has one, and nothing otherwise. -/
theorem answer_update (hc : conditions.Faultless) {v w : World} {row : Assignment k}
    {a : Except StoreError Nat} (ha : w.answer conditions (.update row) = (a, v)) :
    ((w.store.shelf k).row? row.mac = none ∧ conditions.updates w.store row = false ∧
      a = .ok 0 ∧ v = w) ∨
    ((∃ b, (w.store.shelf k).row? row.mac = some b) ∧ conditions.updates w.store row = true ∧
      (∃ n, 0 < n ∧ a = .ok n) ∧ v = { w with store := (w.store.update row).2 }) := by
  rw [answer_eq_perform hc id, perform] at ha
  rw [Conditions.updates, hc.reaches id]
  cases hrow : (w.store.shelf k).row? row.mac with
  | none =>
    rw [Store.update_of_none hrow] at ha ⊢
    cases ha
    exact .inl ⟨rfl, rfl, rfl, rfl⟩
  | some b =>
    have hpos : 0 < (w.store.update row).1 := Store.update_pos_iff.mpr ⟨b, hrow⟩
    cases ha
    exact .inr ⟨⟨b, rfl⟩, by simpa using hpos, ⟨_, hpos, rfl⟩, rfl⟩

end World

/-- What is valid stays so in a world that is alike. -/
def Race.Stable (valid : World → List (Write k) → Prop) : Prop :=
  ∀ ⦃u v h⦄, valid v h → World.Alike u v → valid u h

/-- The plan has written nothing yet. -/
def Race.Fresh (i : Nat) (h : List (Write k)) : Prop := ∀ e ∈ h, e.writer ≠ .request i

namespace Race
variable {valid : World → List (Write k) → Prop} {detaching : Prop} {i : Nat}
  {s t : World × List (Write k)} {post : Except ε α → World × List (Write k) → Prop}

theorem mem_of_later (h : (machine conditions valid detaching i).Later s t) {e : Write k}
    (he : e ∈ s.2) : e ∈ t.2 := by
  obtain ⟨new, ht, -⟩ := h
  rw [ht]
  exact List.mem_append_left new he

theorem last_mem_of_later {u : World} {h : List (Write k)} {e : Write k}
    (ht : (machine conditions valid detaching i).Later (u, h ++ [e]) t) : e ∈ t.2 :=
  mem_of_later ht (List.mem_append_right h List.mem_cons_self)

theorem fresh_nil (i : Nat) : Fresh i ([] : List (Write k)) := nofun

theorem Fresh.later (hs : Fresh i s.2) (h : (machine conditions valid detaching i).Later s t) :
    Fresh i t.2 := by
  obtain ⟨new, ht, hnew⟩ := h
  intro e he
  rw [ht] at he
  rcases List.mem_append.mp he with he | he
  · exact hs e he
  · exact hnew e he

theorem answers_insert {row : Assignment k} {a : Except StoreError Unit}
    (h : (machine conditions valid detaching i).Answers s (.insert row) a t) :
    s.1.answer conditions (.insert row) = (a, t.1) ∧
      t.2 = s.2 ++ [⟨.request i, .insert, row, conditions.inserts s.1.store row⟩] :=
  ⟨h.1, h.2.trans (congrArg _ (Write.once_self ..))⟩

theorem answers_update {row : Assignment k} {a : Except StoreError Nat}
    (h : (machine conditions valid detaching i).Answers s (.update row) a t) :
    s.1.answer conditions (.update row) = (a, t.1) ∧
      t.2 = s.2 ++ [⟨.request i, .update, row, conditions.updates s.1.store row⟩] :=
  ⟨h.1, h.2.trans (congrArg _ (Write.once_self ..))⟩

/-- A write-back is an insert that is waited for, or one that is left alone. -/
theorem keeps_cases {row : Assignment k} {o : WriteBack}
    (h : (machine conditions valid detaching i).Keeps s row o t) :
    (∃ a, s.1.answer conditions (.insert row) = (a, t.1) ∧ o = .ofAnswer a ∧
      t.2 = s.2 ++ [⟨.request i, .writeBack, row, conditions.inserts s.1.store row⟩]) ∨
    (detaching ∧ o = .detached ∧ t.2 = s.2 ∧
      t.1 = { s.1 with landings := s.1.landings ++ [⟨k, row, s.1.now⟩] }) := by
  rcases h with ⟨a, ha, ho, ht⟩ | hdetached
  · exact .inl ⟨a, ha, ho, ht.trans (congrArg _ (Write.once_self ..))⟩
  · exact .inr hdetached

/-- A call that reads tells of the moment and changes nothing. -/
theorem answers_reads (hvalid : Stable valid) {c : Call} (hr : c.Reads) {a : c.Answer}
    (hs : valid s.1 s.2) (h : (machine conditions valid detaching i).Answers s c a t) :
    a = (s.1.answer conditions c).1 ∧ valid t.1 t.2 ∧
      (machine conditions valid detaching i).Later s t := by
  obtain ⟨ha, ht⟩ := h
  have hw := World.answer_alike conditions hr s.1
  rw [ha] at hw
  rw [Call.writes_of_reads hr, List.append_nil] at ht
  refine ⟨by rw [ha], ht ▸ hvalid hs hw, [], ?_⟩
  simpa using ht

/-- What a plan may find that only reads. -/
theorem safe_reads (hvalid : Stable valid) {p : Plan ε α} {good : Except ε α → Prop}
    (hp : p.Only Call.Reads) (hends : p.Ends good)
    (h : ∀ x t, good x → valid t.1 t.2 → (machine conditions valid detaching i).Later s t →
      post x t) :
    p.Safe (machine conditions valid detaching i) post s := by
  induction p generalizing s with
  | done a => exact fun t ht hst => h _ t hends ht hst
  | fail e => exact fun t ht hst => h _ t hends ht hst
  | call c next ih =>
    intro t ht hst a u ha
    obtain ⟨-, hu, htu⟩ := answers_reads hvalid hp.1 ht ha
    refine ⟨hu, ih a (hp.2 a) (hends a) fun x v hx hv huv => h x v hx hv ?_⟩
    exact Machine.later_trans _ hst (Machine.later_trans _ htu huv)
  | writeBack row next => exact hp.elim

/-- A plan that sees no rows of devices comes out as if it were alone. -/
theorem safe_rowless {w : World} (hvalid : Stable valid)
    (hsimilar : ∀ v h, valid v h → World.Similar v w) {p : Plan ε α} (hp : p.Only Call.Rowless)
    (h : ∀ t, valid t.1 t.2 → (machine conditions valid detaching i).Later s t →
      post (p.eval (w.answers conditions)) t) :
    p.Safe (machine conditions valid detaching i) post s := by
  refine Plan.Safe.of_only hp (fun c hc t a u ht ha => ?_) h
  obtain ⟨hanswer, hu, htu⟩ := answers_reads hvalid hc.reads ht ha
  exact ⟨hanswer.trans ((hsimilar _ _ ht).answer hc), hu, htu⟩

/-- The row of a device is that of some moment on the way. -/
theorem safe_deviceRow (hvalid : Stable valid) (hc : conditions.Faultless) {identity : Identity}
    {post : Except ServiceError (Option (StoredRow k)) → World × List (Write k) → Prop}
    (h : ∀ t u, valid t.1 t.2 → (machine conditions valid detaching i).Later s u →
      (machine conditions valid detaching i).Later t u →
      post (selectRow identity ((t.1.store.shelf k).find identity (rowLimit identity))) u) :
    (deviceRow k identity).Safe (machine conditions valid detaching i) post s := by
  intro t ht hst a u ha
  obtain ⟨rfl, hu, htu⟩ :=
    answers_reads (c := .find k identity (rowLimit identity)) hvalid trivial ht ha
  refine ⟨hu, ?_⟩
  rw [World.answer_eq_perform hc id]
  refine Plan.safe_ofExcept fun v _ huv => ?_
  have htv := Machine.later_trans _ htu huv
  exact h t v ht (Machine.later_trans _ hst htv) htv

end Race
end FleetBoot
