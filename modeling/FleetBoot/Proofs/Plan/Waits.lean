import FleetBoot.Proofs.Plan.Deadline
import Mathlib

/-! One deadline over a chain of waits. Each wait uses up what it waits for, as far as that is left,
so the chain takes what all of it needs or what was left at its start, whichever is less. A wait
gives its value if some of the time is left when it begins, and enough for it. -/
namespace FleetBoot.Deadline
variable {d : Deadline} {now t i j : Nat} {delays : List Nat} {v w : Wait}

/-- The time that is left, without end if there is no deadline. -/
def left (d : Deadline) (now : Nat) : ℕ∞ :=
  match d.time with
  | none => ⊤
  | some t => ((t - now : ℕ) : ℕ∞)

/-- One waits for what is left or for what it takes, whichever is shorter. -/
theorem wait_time (d : Deadline) (now delay : Nat) :
    ((d.wait now delay).time : ℕ∞) = now + min (d.left now) delay := by
  obtain ⟨_ | t⟩ := d
  · simp [wait, left]
  · simp only [wait, left]
    split
    · next h => simp [Nat.sub_eq_zero_of_le h]
    · next h =>
      split
      · rw [min_eq_right (Nat.cast_le.mpr (by omega)), Nat.cast_add]
      · rw [min_eq_left (Nat.cast_le.mpr (by omega)), ← Nat.cast_add,
          Nat.add_sub_cancel' (Nat.le_of_not_le h)]

/-- A deadline that is set now leaves the whole timeout. -/
theorem left_start (now : Nat) (timeout : Option Nat) :
    (start now timeout).left now = timeout.elim ⊤ (↑) := by
  cases timeout with
  | none => rfl
  | some t => simp [start, left]

theorem left_start_ne {timeout : Option Nat} {n : Nat} (h : timeout ≠ some n) :
    (start now timeout).left now ≠ n := by
  rw [left_start]
  cases timeout with
  | none => exact ENat.top_ne_natCast n
  | some t => simpa using h

/-- The deadline has passed once the time has that was left. -/
theorem passed_iff_left (h : now ≤ t) : d.passed t = true ↔ now + d.left now ≤ t := by
  obtain ⟨_ | deadline⟩ := d
  · simp [passed, left]
  · simp only [passed, left, decide_eq_true_eq, ← Nat.cast_add, Nat.cast_le]
    omega

theorem finished_wait_iff (d : Deadline) (now delay : Nat) :
    (d.wait now delay).finished = true ↔ 0 < d.left now ∧ (delay : ℕ∞) ≤ d.left now := by
  obtain ⟨_ | deadline⟩ := d
  · simp [wait, left]
  · simp only [wait, left, Nat.cast_pos, Nat.cast_le]
    split
    · simp only [Bool.false_eq_true, false_iff]
      omega
    · split
      · simp only [true_iff]
        omega
      · simp only [Bool.false_eq_true, false_iff]
        omega

/-- A wait uses up what it waits for, as far as that is left. -/
theorem left_wait (d : Deadline) (now delay : Nat) :
    d.left (d.wait now delay).time = d.left now - delay := by
  obtain ⟨_ | deadline⟩ := d
  · rfl
  · simp only [wait, left, ← ENat.natCast_sub, Nat.cast_inj]
    split
    · dsimp only
      omega
    · split <;> dsimp only <;> omega

theorem waitsEnd_cons (d : Deadline) (now delay : Nat) (delays : List Nat) :
    d.waitsEnd now (delay :: delays) = d.waitsEnd (d.wait now delay).time delays := rfl

theorem waitsEnd_concat (d : Deadline) (now delay : Nat) (delays : List Nat) :
    d.waitsEnd now (delays ++ [delay]) = (d.wait (d.waitsEnd now delays) delay).time := by
  rw [waitsEnd, List.foldl_concat, waitsEnd]

theorem left_waitsEnd (d : Deadline) (now : Nat) (delays : List Nat) :
    d.left (d.waitsEnd now delays) = d.left now - delays.sum := by
  induction delays generalizing now with
  | nil => simp [waitsEnd]
  | cons delay delays ih =>
    rw [waitsEnd_cons, ih, left_wait, List.sum_cons, Nat.cast_add, tsub_add_eq_tsub_tsub]

theorem min_add_min_tsub (left a b : ℕ∞) :
    min left a + min (left - a) b = min left (a + b) := by
  rcases le_total left a with h | h
  · rw [tsub_eq_zero_of_le h, min_eq_left h, min_eq_left (h.trans le_self_add), zero_min, add_zero]
  · rw [min_eq_right h, ← min_add_add_left, add_tsub_cancel_of_le h]

/-- A chain of waits takes what all of it needs or what is left, whichever is less. -/
theorem waitsEnd_time (d : Deadline) (now : Nat) (delays : List Nat) :
    (d.waitsEnd now delays : ℕ∞) = now + min (d.left now) delays.sum := by
  induction delays generalizing now with
  | nil => simp [waitsEnd]
  | cons delay delays ih =>
    rw [waitsEnd_cons, ih, left_wait, wait_time, List.sum_cons, Nat.cast_add, add_assoc,
      min_add_min_tsub]

@[simp] theorem length_waits (d : Deadline) (now : Nat) (delays : List Nat) :
    (d.waits now delays).length = delays.length := by
  induction delays generalizing now with
  | nil => rfl
  | cons delay delays ih => rw [waits, List.length_cons, ih, List.length_cons]

/-- Each wait begins when the ones before it are over. -/
theorem getElem?_waits (d : Deadline) (now : Nat) (delays : List Nat) (i : Nat) :
    (d.waits now delays)[i]? = delays[i]?.map (d.wait (d.waitsEnd now (delays.take i))) := by
  induction delays generalizing now i with
  | nil => rfl
  | cons delay delays ih =>
    cases i with
    | zero => rfl
    | succ i => exact ih (d.wait now delay).time i

theorem exists_of_getElem? (h : (d.waits now delays)[i]? = some w) :
    ∃ delay, delays.take (i + 1) = delays.take i ++ [delay] ∧
      w = d.wait (d.waitsEnd now (delays.take i)) delay := by
  rw [getElem?_waits] at h
  obtain ⟨delay, hdelay, rfl⟩ := Option.map_eq_some_iff.mp h
  exact ⟨delay, by rw [List.take_add_one, hdelay, Option.toList_some], rfl⟩

theorem time_of_getElem? (h : (d.waits now delays)[i]? = some w) :
    (w.time : ℕ∞) = now + min (d.left now) (delays.take (i + 1)).sum := by
  obtain ⟨delay, htake, rfl⟩ := exists_of_getElem? h
  rw [← waitsEnd_concat, ← htake, waitsEnd_time]

/-- A wait is given up if it begins when nothing is left, even if it needs no time. -/
theorem finished_of_getElem? (h : (d.waits now delays)[i]? = some w) :
    w.finished = true ↔ ((delays.take i).sum : ℕ∞) < d.left now ∧
      ((delays.take (i + 1)).sum : ℕ∞) ≤ d.left now := by
  obtain ⟨delay, htake, rfl⟩ := exists_of_getElem? h
  rw [finished_wait_iff, left_waitsEnd, tsub_pos_iff_lt, htake, List.sum_append,
    List.sum_singleton, Nat.cast_add]
  exact and_congr_right fun hlt =>
    (ENat.addLECancellable_natCast _).le_tsub_iff_left hlt.le

theorem passed_of_getElem? (h : (d.waits now delays)[i]? = some w) :
    d.passed w.time = true ↔ d.left now ≤ (delays.take (i + 1)).sum := by
  have htime := time_of_getElem? h
  have hnow : now ≤ w.time := Nat.cast_le.mp (le_self_add.trans_eq htime.symm)
  rw [passed_iff_left hnow, htime, (ENat.addLECancellable_natCast now).add_le_add_iff_left]
  exact ⟨fun hle => hle.trans (min_le_right _ _), fun hle => le_min le_rfl hle⟩

/-- A wait that is given up uses up what is left. -/
theorem left_le_of_getElem? (h : (d.waits now delays)[i]? = some w) (hout : w.finished = false) :
    d.left now ≤ (delays.take (i + 1)).sum ∧ (w.time : ℕ∞) = now + d.left now := by
  have hle : d.left now ≤ (delays.take (i + 1)).sum := by
    by_contra hlt
    have hlt := not_le.mp hlt
    have hmono : (delays.take i).sum ≤ (delays.take (i + 1)).sum :=
      List.monotone_sum_take delays (Nat.le_succ i)
    have hcame := (finished_of_getElem? h).mpr ⟨(Nat.cast_le.mpr hmono).trans_lt hlt, hlt.le⟩
    rw [hout] at hcame
    cases hcame
  exact ⟨hle, by rw [time_of_getElem? h, min_eq_left hle]⟩

/-- After a wait that is given up every other is given up at once. -/
theorem eq_of_getElem?_lt (h : (d.waits now delays)[i]? = some w) (hout : w.finished = false)
    (hij : i < j) (hv : (d.waits now delays)[j]? = some v) : v = ⟨false, w.time⟩ := by
  obtain ⟨hle, htime⟩ := left_le_of_getElem? h hout
  have hlater : d.left now ≤ (delays.take j).sum :=
    hle.trans (Nat.cast_le.mpr (List.monotone_sum_take delays hij))
  have hvout : v.finished = false := by
    rw [← Bool.not_eq_true, finished_of_getElem? hv]
    exact fun hcame => hcame.1.not_ge hlater
  have hvtime : v.time = w.time := by
    rw [← Nat.cast_inj (R := ℕ∞), (left_le_of_getElem? hv hvout).2, htime]
  rw [← hvout, ← hvtime]

/-- Where a wait does not come just when nothing is left, it gives its value if all up to it need
less than was left. -/
theorem finished_iff_lt (h : (d.waits now delays)[i]? = some w)
    (hapart : d.left now ≠ (delays.take (i + 1)).sum) :
    w.finished = true ↔ ((delays.take (i + 1)).sum : ℕ∞) < d.left now := by
  constructor
  · intro hcame
    exact lt_of_le_of_ne ((finished_of_getElem? h).mp hcame).2 hapart.symm
  · intro hlt
    by_contra hout
    exact (left_le_of_getElem? h (by simpa using hout)).1.not_gt hlt

/-- Up to the end of a chain the deadline has passed once a wait has been given up. Only a chain of
nothing can begin after the deadline and give nothing up. -/
theorem passed_iff_exists (hapart : ∀ i < delays.length, d.left now ≠ (delays.take (i + 1)).sum)
    (hnow : now ≤ t) (hend : t ≤ d.waitsEnd now delays) :
    d.passed t = true ↔
      (d.left now = 0 ∧ delays = []) ∨
        ∃ w ∈ d.waits now delays, w.finished = false ∧ w.time ≤ t := by
  rw [passed_iff_left hnow]
  constructor
  · intro hpassed
    have hle : d.left now ≤ delays.sum := by
      have hend : (t : ℕ∞) ≤ now + min (d.left now) delays.sum :=
        (Nat.cast_le.mpr hend).trans_eq (waitsEnd_time d now delays)
      exact ((ENat.addLECancellable_natCast now).add_le_add_iff_left.mp
        (hpassed.trans hend)).trans (min_le_right _ _)
    rcases List.eq_nil_or_concat' delays with rfl | ⟨earlier, delay, rfl⟩
    · exact .inl ⟨nonpos_iff_eq_zero.mp hle, rfl⟩
    · -- the last wait is given up: it needs more than was left, and not just as much
      have hall : (earlier ++ [delay]).take (earlier.length + 1) = earlier ++ [delay] :=
        List.take_of_length_le (by simp)
      obtain ⟨w, hw⟩ : ∃ w, (d.waits now (earlier ++ [delay]))[earlier.length]? = some w := by
        rw [getElem?_waits, List.getElem?_concat_length]
        exact ⟨_, rfl⟩
      have hout : w.finished = false := by
        rw [← Bool.not_eq_true, finished_iff_lt hw (hapart _ (by simp)), hall]
        exact hle.not_gt
      have htime := (left_le_of_getElem? hw hout).2.trans_le hpassed
      exact .inr ⟨w, List.mem_of_getElem? hw, hout, Nat.cast_le.mp htime⟩
  · rintro (⟨hnone, -⟩ | ⟨w, hw, hout, htime⟩)
    · rw [hnone, add_zero]
      exact Nat.cast_le.mpr hnow
    · obtain ⟨i, hi⟩ := List.mem_iff_getElem?.mp hw
      exact (left_le_of_getElem? hi hout).2.symm.trans_le (Nat.cast_le.mpr htime)

/-- What is awaited one after another under a timeout, none of it coming just when the time is up:
each gives its value if all up to it need less than the timeout, and the first that does not uses up
what is left. From then on the deadline has passed and what follows is given up at once, and before
it has not, unless there is no time and nothing to await. -/
theorem waits_exact (timeout : Option Nat) (now : Nat) (delays : List Nat)
    (hapart : ∀ i < delays.length, timeout ≠ some (delays.take (i + 1)).sum) :
    let d : Deadline := start now timeout
    let T : ℕ∞ := timeout.elim ⊤ (↑)
    let waits := d.waits now delays
    waits.length = delays.length ∧
      (∀ i w, waits[i]? = some w →
        (∀ (α : Type) (value : α), w.result value =
          if ((delays.take (i + 1)).sum : ℕ∞) < T then .ok value
          else .error .deadlineExceeded) ∧
        (w.time : ℕ∞) = now + min T (delays.take (i + 1)).sum ∧
        (w.finished = false → ∀ j v, i < j → waits[j]? = some v → v = ⟨false, w.time⟩) ∧
        (d.passed w.time = true ↔ w.finished = false)) ∧
      (∀ t, now ≤ t → t ≤ d.waitsEnd now delays →
        (d.passed t = true ↔
          (T = 0 ∧ delays = []) ∨ ∃ w ∈ waits, w.finished = false ∧ w.time ≤ t)) ∧
      (d.waitsEnd now delays : ℕ∞) = now + min T delays.sum := by
  intro d T waits
  have hT : T = d.left now := (left_start now timeout).symm
  have hapart : ∀ i < delays.length, d.left now ≠ (delays.take (i + 1)).sum :=
    fun i hi => left_start_ne (hapart i hi)
  rw [hT]
  refine ⟨length_waits d now delays, fun i w hw => ?_,
    fun t hnow hend => passed_iff_exists hapart hnow hend, waitsEnd_time d now delays⟩
  have hi : i < delays.length := by
    rw [← length_waits d now]
    exact (List.getElem?_eq_some_iff.mp hw).1
  have hcame := finished_iff_lt hw (hapart i hi)
  refine ⟨fun α value => ?_, time_of_getElem? hw, fun hout j v => eq_of_getElem?_lt hw hout, ?_⟩
  · rw [Wait.result, if_congr hcame rfl rfl]
  · rw [passed_of_getElem? hw, ← not_lt, ← hcame, Bool.not_eq_true]

/-- With a timeout of 25 ms two calls are answered after 10 ms, a third one that needs 20 ms more is
given up 25 ms after the start, and a fourth one that needs no time is given up then. -/
theorem waits_exact_late :
    let d : Deadline := start 100 (some 25)
    let delays := [10, 0, 20, 0, 5]
    let waits := d.waits 100 delays
    (∀ i < delays.length, some 25 ≠ some (delays.take (i + 1)).sum) ∧
      (∃ w, waits[1]? = some w ∧ w.result "done" = .ok "done" ∧ d.passed w.time ≠ true) ∧
      (∃ w, waits[2]? = some w ∧ w.result "done" = .error .deadlineExceeded ∧
        d.passed w.time = true ∧ waits[3]? = some ⟨false, w.time⟩) ∧
      d.waitsEnd 100 delays = 125 := by
  intro d delays waits
  have hapart : ∀ i < delays.length, some 25 ≠ some (delays.take (i + 1)).sum := by decide
  obtain ⟨-, hwaits, -, hend⟩ := waits_exact (some 25) 100 delays hapart
  obtain ⟨hanswered, -, -, hearly⟩ := hwaits 1 ⟨true, 110⟩ rfl
  obtain ⟨hlate, -, hlater, hpassed⟩ := hwaits 2 ⟨false, 125⟩ rfl
  have hquick : ((delays.take 2).sum : ℕ∞) < (25 : ℕ) := Nat.cast_lt.mpr (by decide)
  have hslow : ¬ ((delays.take 3).sum : ℕ∞) < (25 : ℕ) :=
    not_lt.mpr (Nat.cast_le.mpr (by decide))
  refine ⟨hapart, ⟨_, rfl, ?_, fun h => nomatch hearly.mp h⟩, ⟨_, rfl, ?_, hpassed.mpr rfl, ?_⟩, ?_⟩
  · exact (hanswered String "done").trans (if_pos hquick)
  · exact (hlate String "done").trans (if_neg hslow)
  · exact congrArg some (hlater rfl 3 ⟨false, 125⟩ (by decide) rfl)
  · have hmin : min ((25 : ℕ) : ℕ∞) delays.sum = (25 : ℕ) :=
      min_eq_left (Nat.cast_le.mpr (by decide))
    exact Nat.cast_inj.mp (hend.trans ((congrArg _ hmin).trans (Nat.cast_add 100 25).symm))

end FleetBoot.Deadline
