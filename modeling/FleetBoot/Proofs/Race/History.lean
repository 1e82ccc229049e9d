import FleetBoot.Plan.Race
import FleetBoot.Proofs.Plan.Safe
import FleetBoot.Proofs.Plan.World

/-! The rows that a race writes, in order, and what its plans keep while they take turns. -/
namespace FleetBoot

/-- The row, if it is of this kind. -/
def Assignment.as? : {j : Kind} → (k : Kind) → Assignment j → Option (Assignment k)
  | .payload, .payload, row => some row
  | .image, .image, row => some row
  | _, _, _ => none

@[simp] theorem Assignment.as?_self {k : Kind} (row : Assignment k) : row.as? k = some row := by
  cases k <;> rfl

theorem Assignment.as?_of_ne {j k : Kind} (row : Assignment j) (h : j ≠ k) : row.as? k = none := by
  cases j <;> cases k <;> first | rfl | exact absurd rfl h

/-- Who writes: a plan of the race, or an insert that nobody waits for. -/
inductive Writer where
  | request (i : Nat)
  | landing
  deriving DecidableEq

inductive Manner where
  | update
  | insert
  | writeBack
  deriving DecidableEq

/-- One write of a row, and whether it changed the database. -/
structure Write (k : Kind) where
  writer : Writer
  manner : Manner
  row : Assignment k
  applied : Bool
  deriving DecidableEq

namespace Write
variable {k : Kind}

/-- The device had no row before. -/
def creates (e : Write k) : Bool := e.applied && e.manner != .update

/-- The row was asked for, not chosen by default. -/
def assigns (e : Write k) : Bool := e.applied && e.manner != .writeBack

/-- The write of one row as a history of its kind. -/
def once (k : Kind) (writer : Writer) (manner : Manner) {j : Kind} (row : Assignment j)
    (applied : Bool) : List (Write k) :=
  ((row.as? k).map fun row => ⟨writer, manner, row, applied⟩).toList

@[simp] theorem once_self (writer : Writer) (manner : Manner) (row : Assignment k)
    (applied : Bool) : once k writer manner row applied = [⟨writer, manner, row, applied⟩] := by
  simp [once]

theorem once_of_ne {j : Kind} (h : j ≠ k) (writer : Writer) (manner : Manner)
    (row : Assignment j) (applied : Bool) : once k writer manner row applied = [] := by
  simp [once, row.as?_of_ne h]

theorem writer_of_mem_once {e : Write k} {writer : Writer} {manner : Manner} {j : Kind}
    {row : Assignment j} {applied : Bool} (h : e ∈ once k writer manner row applied) :
    e.writer = writer := by
  by_cases hj : j = k
  · subst hj
    simp only [once_self, List.mem_singleton] at h
    rw [h]
  · simp [once_of_ne hj] at h

end Write

namespace Conditions

/-- The call reaches the database. -/
def reaches (conditions : Conditions) (c : Call) : Bool := (conditions.reply c).isNone

/-- The insert reaches the database and adds its row. -/
def inserts (conditions : Conditions) (s : Store) {k : Kind} (row : Assignment k) : Bool :=
  conditions.reaches (.insert row) && (s.insert row).isOk

/-- The update reaches the database and changes a row. -/
def updates (conditions : Conditions) (s : Store) {k : Kind} (row : Assignment k) : Bool :=
  conditions.reaches (.update row) && decide (0 < (s.update row).1)

end Conditions

variable {ε α : Type}

/-- What a call writes. -/
def Call.writes (k : Kind) (conditions : Conditions) (writer : Writer) (s : Store) :
    Call → List (Write k)
  | .update row => Write.once k writer .update row (conditions.updates s row)
  | .insert row => Write.once k writer .insert row (conditions.inserts s row)
  | _ => []

theorem Call.writes_of_reads {k : Kind} {conditions : Conditions} {c : Call} (h : c.Reads)
    (writer : Writer) (s : Store) : c.writes k conditions writer s = [] := by
  cases c <;> first | rfl | exact h.elim

/-- What the next step of a plan writes. -/
def Plan.writes (k : Kind) (conditions : Conditions) (writer : Writer) (s : Store) :
    Plan ε α → List (Write k)
  | .call c _ => c.writes k conditions writer s
  | .writeBack row _ => Write.once k writer .writeBack row (conditions.inserts s row)
  | _ => []

theorem Plan.writer_of_mem_writes {k : Kind} {conditions : Conditions} {writer : Writer}
    {s : Store} {p : Plan ε α} {e : Write k} (h : e ∈ p.writes k conditions writer s) :
    e.writer = writer := by
  cases p with
  | call c next => cases c <;> first | exact Write.writer_of_mem_once h | cases h
  | writeBack row next => exact Write.writer_of_mem_once h
  | done a => cases h
  | fail e => cases h

/-- What an insert writes that lands. -/
def World.landingWrites (k : Kind) (w : World) (j : Nat) : List (Write k) :=
  match w.landings[j]? with
  | some l => Write.once k .landing .writeBack l.row (w.store.insert l.row).isOk
  | none => []

namespace Race

/-- What a move writes. -/
def writes (k : Kind) (conditions : Conditions) (r : Race ε α) : Move → List (Write k)
  | .advance i =>
      match r.plans[i]? with
      | some p => p.writes k conditions (.request i) r.world.store
      | none => []
  | .detach _ => []
  | .land j => r.world.landingWrites k j

/-- All writes of rows of one kind, in order. -/
def history (k : Kind) (conditions : Conditions) : Race ε α → List Move → List (Write k)
  | _, [] => []
  | r, v :: moves => r.writes k conditions v ++ (r.move conditions v).history k conditions moves

@[simp] theorem play_nil (conditions : Conditions) (r : Race ε α) : r.play conditions [] = r := rfl

@[simp] theorem play_cons (conditions : Conditions) (r : Race ε α) (v : Move) (moves : List Move) :
    r.play conditions (v :: moves) = (r.move conditions v).play conditions moves := rfl

/-- The world and the writes up to now, as one of the plans meets them: between two of its steps
the others write, and it does not. A plan that may go on without its write-back is `detaching`. -/
def machine {k : Kind} (conditions : Conditions) (valid : World → List (Write k) → Prop)
    (detaching : Prop) (i : Nat) : Machine (World × List (Write k)) where
  Valid s := valid s.1 s.2
  Later s t := ∃ new, t.2 = s.2 ++ new ∧ ∀ e ∈ new, e.writer ≠ .request i
  Answers s c a t :=
    s.1.answer conditions c = (a, t.1) ∧ t.2 = s.2 ++ c.writes k conditions (.request i) s.1.store
  Keeps s _ row o t :=
    (∃ a, s.1.answer conditions (.insert row) = (a, t.1) ∧ o = .ofAnswer a ∧
        t.2 = s.2 ++ Write.once k (.request i) .writeBack row (conditions.inserts s.1.store row)) ∨
      detaching ∧ o = .detached ∧ t.2 = s.2 ∧
        t.1 = { s.1 with landings := s.1.landings ++ [⟨_, row, s.1.now⟩] }
  later_refl s := ⟨[], by simp⟩
  later_trans := by
    rintro s t u ⟨new, ht, hnew⟩ ⟨new', hu, hnew'⟩
    refine ⟨new ++ new', by rw [hu, ht, List.append_assoc], fun e he => ?_⟩
    rcases List.mem_append.mp he with he | he
    · exact hnew e he
    · exact hnew' e he

variable {k : Kind} {conditions : Conditions} {valid : World → List (Write k) → Prop}
  {detaching : Prop} {post : Nat → Except ε α → World × List (Write k) → Prop}

/-- A plan that is safe keeps the world valid by its next step, and stays safe. -/
theorem advance_safe {i : Nat} {p : Plan ε α} {w : World} {h : List (Write k)} (hw : valid w h)
    (hp : p.Safe (machine conditions valid detaching i) (post i) (w, h)) :
    let t := ((p.advance conditions w).2, h ++ p.writes k conditions (.request i) w.store)
    valid t.1 t.2 ∧
      (p.advance conditions w).1.Safe (machine conditions valid detaching i) (post i) t := by
  have hrefl := (machine conditions valid detaching i).later_refl (w, h)
  cases p with
  | done a =>
    simp only [Plan.advance, Plan.writes, List.append_nil]
    exact ⟨hw, hp⟩
  | fail e =>
    simp only [Plan.advance, Plan.writes, List.append_nil]
    exact ⟨hw, hp⟩
  | call c next => exact hp (w, h) hw hrefl (w.answer conditions c).1 _ ⟨rfl, rfl⟩
  | writeBack row next =>
    exact hp (w, h) hw hrefl _ _ (.inl ⟨(w.answer conditions (.insert row)).1, rfl, rfl, rfl⟩)

theorem detach_safe {i : Nat} {p : Plan ε α} {w : World} {h : List (Write k)} (hd : detaching)
    (hw : valid w h) (hp : p.Safe (machine conditions valid detaching i) (post i) (w, h)) :
    valid (p.detach w).2 h ∧
      (p.detach w).1.Safe (machine conditions valid detaching i) (post i) ((p.detach w).2, h) := by
  have hrefl := (machine conditions valid detaching i).later_refl (w, h)
  cases p with
  | writeBack row next =>
    exact hp (w, h) hw hrefl .detached (((Plan.writeBack row next).detach w).2, h)
      (.inr ⟨hd, rfl, rfl, rfl⟩)
  | _ => exact ⟨hw, hp⟩

/-- Every plan of the race is safe as things stand. -/
structure Safe (conditions : Conditions) (valid : World → List (Write k) → Prop)
    (detaching : Prop) (post : Nat → Except ε α → World × List (Write k) → Prop)
    (r : Race ε α) (h : List (Write k)) : Prop where
  world : valid r.world h
  plans : ∀ (i : Nat) (p : Plan ε α), r.plans[i]? = some p →
    p.Safe (machine conditions valid detaching i) (post i) (r.world, h)

/-- One plan takes a step that the others need not know of. -/
theorem Safe.set {r : Race ε α} {h new : List (Write k)} {i : Nat} {q : Plan ε α} {w : World}
    (hs : r.Safe conditions valid detaching post h) (hnew : ∀ e ∈ new, e.writer = .request i)
    (hq : valid w (h ++ new) ∧
      q.Safe (machine conditions valid detaching i) (post i) (w, h ++ new)) :
    Safe conditions valid detaching post ⟨w, r.plans.set i q⟩ (h ++ new) := by
  refine ⟨hq.1, fun j p hp => ?_⟩
  rw [List.getElem?_set] at hp
  split at hp
  · next hij =>
    subst hij
    split at hp
    · cases hp
      exact hq.2
    · cases hp
  · next hij =>
    refine (hs.plans j p hp).mono ⟨new, rfl, fun e he => ?_⟩
    rw [hnew e he]
    simpa using hij

theorem Safe.land {r : Race ε α} {h : List (Write k)}
    (hs : r.Safe conditions valid detaching post h) {j : Nat}
    (hw : valid (r.world.land j) (h ++ r.world.landingWrites k j)) :
    Safe conditions valid detaching post ⟨r.world.land j, r.plans⟩
      (h ++ r.world.landingWrites k j) := by
  refine ⟨hw, fun i p hp => (hs.plans i p hp).mono ⟨_, rfl, fun e he => ?_⟩⟩
  unfold World.landingWrites at he
  split at he
  · rw [Write.writer_of_mem_once he]
    exact nofun
  · cases he

theorem Safe.move {r : Race ε α} {h : List (Write k)} {v : Move}
    (hs : r.Safe conditions valid detaching post h)
    (hland : ∀ w h j, valid w h → valid (w.land j) (h ++ w.landingWrites k j))
    (hv : ∀ i, v = .detach i → detaching) :
    (r.move conditions v).Safe conditions valid detaching post (h ++ r.writes k conditions v) := by
  cases v with
  | land j => exact hs.land (hland _ _ j hs.world)
  | advance i =>
    simp only [Race.move, stepWith, writes]
    cases hp : r.plans[i]? with
    | none => simpa using hs
    | some p =>
      exact hs.set (fun e => Plan.writer_of_mem_writes) (advance_safe hs.world (hs.plans i p hp))
  | detach i =>
    simp only [Race.move, stepWith, writes]
    cases hp : r.plans[i]? with
    | none => simpa using hs
    | some p =>
      refine hs.set (fun e he => absurd he List.not_mem_nil) ?_
      simpa using detach_safe (hv i rfl) hs.world (hs.plans i p hp)

/-- Whatever the order of the steps, all plans stay safe. -/
theorem Safe.play {r : Race ε α} {h : List (Write k)} {moves : List Move}
    (hs : r.Safe conditions valid detaching post h)
    (hland : ∀ w h j, valid w h → valid (w.land j) (h ++ w.landingWrites k j))
    (hv : ∀ i, .detach i ∈ moves → detaching) :
    (r.play conditions moves).Safe conditions valid detaching post
      (h ++ r.history k conditions moves) := by
  induction moves generalizing r h with
  | nil => simpa [history] using hs
  | cons v moves ih =>
    rw [history, ← List.append_assoc]
    exact ih (hs.move hland fun i hi => hv i (by simp [hi])) fun i hi => hv i (by simp [hi])

theorem Safe.result {r : Race ε α} {h : List (Write k)} {i : Nat} {p : Plan ε α}
    {x : Except ε α} (hs : r.Safe conditions valid detaching post h) (hp : r.plans[i]? = some p)
    (hx : p.result? = some x) : post i x (r.world, h) := by
  have hsp := hs.plans i p hp
  have hrefl := (machine conditions valid detaching i).later_refl (r.world, h)
  cases p with
  | done a =>
    cases hx
    exact hsp _ hs.world hrefl
  | fail e =>
    cases hx
    exact hsp _ hs.world hrefl
  | call c next => cases hx
  | writeBack row next => cases hx

end Race
end FleetBoot
