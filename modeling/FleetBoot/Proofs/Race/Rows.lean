import FleetBoot.Proofs.Race.History

/-! The rows at the end of a race are those at its start with all writes of its history carried
out. -/
namespace FleetBoot
variable {ε α : Type} {j k : Kind} {conditions : Conditions} {w : World}

namespace Write

/-- Carries out a write. One that changed nothing then changes nothing now. -/
def carry (rows : List (Assignment k)) (e : Write k) : List (Assignment k) :=
  if e.applied then
    match e.manner with
    | .update => rows.map fun a => if a.mac = e.row.mac then e.row else a
    | _ => rows ++ [e.row]
  else rows

theorem carry_of_not_applied {e : Write k} (h : e.applied = false) (rows : List (Assignment k)) :
    e.carry rows = rows := by simp [carry, h]

theorem carry_of_ne_update {e : Write k} (h : e.manner ≠ .update) (rows : List (Assignment k)) :
    e.carry rows = if e.applied then rows ++ [e.row] else rows := by
  obtain ⟨writer, manner, row, applied⟩ := e
  cases manner with
  | update => exact absurd rfl h
  | insert => rfl
  | writeBack => rfl

end Write

theorem Write.carry_once_of_not (writer : Writer) (m : Manner) (row : Assignment j)
    (rows : List (Assignment k)) :
    (Write.once k writer m row false).foldl Write.carry rows = rows := by
  by_cases hj : j = k
  · subst hj
    rw [Write.once_self, List.foldl_cons, List.foldl_nil, Write.carry_of_not_applied rfl]
  · rw [Write.once_of_ne hj, List.foldl_nil]

theorem Write.once_eq_of_mem {writer : Writer} {m : Manner} {row : Assignment j} {applied : Bool}
    {e : Write k} (he : e ∈ Write.once k writer m row applied) :
    Write.once k writer m row applied = [e] := by
  by_cases hj : j = k
  · subst hj
    rw [Write.once_self] at he ⊢
    rw [List.mem_singleton.mp he]
  · rw [Write.once_of_ne hj] at he
    cases he

/-- An insert that lands changes the rows like one that is waited for. -/
theorem Store.assignments_land (s : Store) (writer : Writer) {m : Manner} (hm : m ≠ .update)
    (l : Landing) :
    ((s.land l).shelf k).assignments =
      (Write.once k writer m l.row (s.insert l.row).isOk).foldl Write.carry
        (s.shelf k).assignments := by
  obtain ⟨j, row, due⟩ := l
  rw [Store.land]
  rcases s.insert_cases row with ⟨-, hi⟩ | ⟨-, hi⟩
  · rw [hi]
    by_cases hj : j = k
    · subst hj
      rw [Write.once_self, List.foldl_cons, List.foldl_nil, Write.carry_of_ne_update hm]
      simp [Except.isOk, Except.toBool]
    · rw [Write.once_of_ne hj, List.foldl_nil, Store.shelf_withShelf_of_ne s _ hj]
  · rw [hi]
    exact (Write.carry_once_of_not writer m row _).symm

/-- The rows of all devices. -/
abbrev World.rows (k : Kind) (w : World) : List (Assignment k) := (w.store.shelf k).assignments

namespace World

theorem rows_insert (conditions : Conditions) (writer : Writer) {m : Manner}
    (hm : m ≠ .update) (w : World) (row : Assignment j) :
    (w.answer conditions (.insert row)).2.rows k =
      (Write.once k writer m row (conditions.inserts w.store row)).foldl Write.carry
        (w.rows k) := by
  unfold World.answer Conditions.inserts Conditions.reaches
  cases conditions.reply (.insert row) with
  | some a =>
    rw [Option.isNone_some, Bool.false_and, Write.carry_once_of_not]
  | none =>
    have hstore : (w.perform (.insert row)).2.store = w.store.land ⟨j, row, 0⟩ := by
      rw [perform, Store.land]
      cases w.store.insert row <;> rfl
    rw [Option.isNone_none, Bool.true_and, rows, hstore]
    exact w.store.assignments_land writer hm ⟨j, row, 0⟩

theorem rows_update (conditions : Conditions) (writer : Writer) (w : World) (row : Assignment j) :
    (w.answer conditions (.update row)).2.rows k =
      ((Call.update row).writes k conditions writer w.store).foldl Write.carry (w.rows k) := by
  rw [Call.writes]
  by_cases hj : j = k
  · subst hj
    rw [Write.once_self, List.foldl_cons, List.foldl_nil]
    unfold World.answer Conditions.updates Conditions.reaches
    cases conditions.reply (.update row) with
    | some a => rfl
    | none =>
      cases hrow : (w.store.shelf j).row? row.mac with
      | none => simp [perform, Store.update_of_none hrow, Write.carry]
      | some a =>
        have hpos : 0 < (w.store.update row).1 := Store.update_pos_iff.mpr ⟨a, hrow⟩
        simp [perform, hpos, Write.carry, rows, Shelf.update]
  · rw [Write.once_of_ne hj]
    unfold World.answer
    cases conditions.reply (.update row) with
    | some a => rfl
    | none => exact congrArg Shelf.assignments (Store.shelf_withShelf_of_ne w.store _ hj)

theorem rows_create (conditions : Conditions) (w : World) (image : Image) :
    (w.answer conditions (.create image)).2.rows k = w.rows k := by
  unfold World.answer
  cases conditions.reply (.create image) with
  | some a => rfl
  | none =>
    cases hs : w.store.register (k := .image) image with
    | error e => simp only [perform, hs, commit]
    | ok s =>
      simp only [perform, hs, commit]
      exact Store.assignments_register hs k

theorem rows_delete (conditions : Conditions) (w : World) (key : ImageKey) :
    (w.answer conditions (.delete key)).2.rows k = w.rows k := by
  unfold World.answer
  cases conditions.reply (.delete key) with
  | some a => rfl
  | none => exact Store.assignments_remove w.store (j := .image) key k

/-- A call changes the rows as its writes say. -/
theorem rows_answer (conditions : Conditions) (writer : Writer) (w : World) (c : Call) :
    (w.answer conditions c).2.rows k =
      (c.writes k conditions writer w.store).foldl Write.carry (w.rows k) := by
  have hreads (hc : c.Reads) : (w.answer conditions c).2.rows k = w.rows k := by
    rw [rows, (answer_alike conditions hc w).store]
  cases c with
  | insert row => exact rows_insert conditions writer (m := .insert) (by decide) w row
  | update row => exact rows_update conditions writer w row
  | create image => exact rows_create conditions w image
  | delete key => exact rows_delete conditions w key
  | _ => exact hreads trivial

theorem rows_land (w : World) (j : Nat) :
    (w.land j).rows k = (w.landingWrites k j).foldl Write.carry (w.rows k) := by
  unfold land landingWrites
  cases w.landings[j]? with
  | none => rfl
  | some l =>
    exact w.store.assignments_land .landing (m := .writeBack) (by decide) l

end World

namespace Race

/-- A move changes the rows as its writes say. -/
theorem rows_move (conditions : Conditions) (r : Race ε α) (v : Move) :
    (r.move conditions v).world.rows k =
      (r.writes k conditions v).foldl Write.carry (r.world.rows k) := by
  cases v with
  | land j => exact r.world.rows_land j
  | detach i =>
    simp only [Race.move, stepWith, writes]
    cases r.plans[i]? with
    | none => rfl
    | some p => cases p <;> rfl
  | advance i =>
    simp only [Race.move, stepWith, writes]
    cases r.plans[i]? with
    | none => rfl
    | some p =>
      cases p with
      | done a => rfl
      | fail e => rfl
      | call c next => exact r.world.rows_answer conditions _ c
      | writeBack row next =>
        exact r.world.rows_insert conditions _ (m := .writeBack) (by decide) row

theorem rows_play (conditions : Conditions) (r : Race ε α) (moves : List Move) :
    (r.play conditions moves).world.rows k =
      (r.history k conditions moves).foldl Write.carry (r.world.rows k) := by
  induction moves generalizing r with
  | nil => rfl
  | cons v moves ih => rw [play_cons, ih, rows_move, history, List.foldl_append]

theorem writes_eq_of_mem {r : Race ε α} {v : Move} {e : Write k}
    (he : e ∈ r.writes k conditions v) : r.writes k conditions v = [e] := by
  cases v with
  | land j =>
    simp only [writes, World.landingWrites] at he ⊢
    split at he
    · exact Write.once_eq_of_mem he
    · cases he
  | detach i => cases he
  | advance i =>
    simp only [writes] at he ⊢
    split at he
    · next p hp =>
      cases p with
      | call c next => cases c <;> first | exact Write.once_eq_of_mem he | cases he
      | writeBack row next => exact Write.once_eq_of_mem he
      | done a => cases he
      | fail e => cases he
    · cases he

/-- A write-back leaves all rows as they are, whether it adds one or not. -/
theorem prefix_of_writeBack {r : Race ε α} {v : Move} {e : Write k}
    (he : e ∈ r.writes k conditions v) (hm : e.manner = .writeBack) :
    r.world.rows k <+: (r.move conditions v).world.rows k := by
  have hne : e.manner ≠ .update := by rw [hm]; decide
  rw [rows_move, writes_eq_of_mem he, List.foldl_cons, List.foldl_nil, Write.carry_of_ne_update hne]
  split
  · exact List.prefix_append _ _
  · exact List.prefix_rfl

end Race
end FleetBoot
