import FleetBoot.Proofs.Json.Text
import FleetBoot.Proofs.Store.History

/-! The parameters of a payload after any changes: of each name that was set the last value, as it
was set, and nothing of other payloads. -/
namespace FleetBoot

/-- The changes set the parameter to this value, and not to another one after that. -/
def LastSet (edits : List Edit) (payloadId name : String) (value : Json) : Prop :=
  ∃ before after, edits = before ++ .parameter payloadId name value :: after ∧
    ∀ later, .parameter payloadId name later ∉ after

section LastSet
variable {edits : List Edit} {e : Edit} {payloadId name : String} {value : Json}

theorem LastSet.mem (h : LastSet edits payloadId name value) :
    .parameter payloadId name value ∈ edits := by
  obtain ⟨before, after, rfl, -⟩ := h
  exact List.mem_append_right before List.mem_cons_self

theorem lastSet_concat_iff : LastSet (edits ++ [e]) payloadId name value ↔
    e = .parameter payloadId name value ∨
      LastSet edits payloadId name value ∧ ∀ later, e ≠ .parameter payloadId name later := by
  constructor
  · rintro ⟨before, after, hsplit, hlast⟩
    induction after using List.reverseRecOn with
    | nil =>
      obtain ⟨-, he⟩ := List.append_inj' hsplit rfl
      exact .inl (List.singleton_inj.mp he)
    | append_singleton after last _ =>
      rw [← List.cons_append, ← List.append_assoc] at hsplit
      obtain ⟨rfl, he⟩ := List.append_inj' hsplit rfl
      obtain rfl := List.singleton_inj.mp he
      refine .inr ⟨⟨before, after, rfl, fun later hlater => ?_⟩, fun later heq => ?_⟩
      · exact hlast later (List.mem_append_left _ hlater)
      · exact hlast later (heq ▸ List.mem_append_right after List.mem_cons_self)
  · rintro (rfl | ⟨⟨before, after, rfl, hlast⟩, hother⟩)
    · exact ⟨edits, [], rfl, fun _ => List.not_mem_nil⟩
    · refine ⟨before, after ++ [e], by simp, fun later hlater => ?_⟩
      rcases List.mem_append.mp hlater with hlater | hlater
      · exact hlast later hlater
      · exact hother later (List.mem_singleton.mp hlater).symm

/-- A parameter that is set at all has a last value. -/
theorem exists_lastSet (h : .parameter payloadId name value ∈ edits) :
    ∃ last, LastSet edits payloadId name last := by
  induction edits using List.reverseRecOn with
  | nil => exact absurd h List.not_mem_nil
  | append_singleton edits e ih =>
    by_cases he : ∃ later, e = .parameter payloadId name later
    · obtain ⟨later, rfl⟩ := he
      exact ⟨later, lastSet_concat_iff.mpr (.inl rfl)⟩
    · have hother : ∀ later, e ≠ .parameter payloadId name later := not_exists.mp he
      have hmem : .parameter payloadId name value ∈ edits := by
        rcases List.mem_append.mp h with h | h
        · exact h
        · exact absurd (List.mem_singleton.mp h).symm (hother value)
      obtain ⟨last, hlast⟩ := ih hmem
      exact ⟨last, lastSet_concat_iff.mpr (.inr ⟨hlast, hother⟩)⟩

end LastSet

section Rows
variable {s t : Store} {p q : Parameter} {e : Edit} {x : Except StoreError e.Reply}

/-- A parameter that is set takes the place of that of its payload and name, if there is one. -/
theorem Store.SetsParameter.mem_iff (h : s.SetsParameter t p) (hs : s.Keyed) :
    q ∈ t.parameters ↔
      q = p ∨ q ∈ s.parameters ∧ (q.payloadId, q.name) ≠ (p.payloadId, p.name) := by
  obtain ⟨hfree, rfl⟩ | ⟨before, old, after, hsplit, hkey, rfl⟩ := h
  · rw [List.mem_append, List.mem_singleton, or_comm]
    exact or_congr_right (iff_self_and.mpr (hfree q))
  · have hnodup := hs.parameters
    rw [hsplit] at hnodup ⊢
    obtain ⟨hbefore, hafter⟩ := ne_of_nodup_keys hnodup
    rw [hkey] at hbefore hafter
    have hold : q = old → (q.payloadId, q.name) = (p.payloadId, p.name) := fun h => h ▸ hkey
    have hleft := hbefore q
    have hright := hafter q
    simp only [List.mem_append, List.mem_cons]
    tauto

/-- All other changes leave the parameters alone. -/
theorem Edit.Outcome.parameters_eq (h : e.Outcome s t x)
    (hother : ∀ payloadId name value, e ≠ .parameter payloadId name value) :
    t.parameters = s.parameters := by
  rcases h.step_cases with rfl | ⟨k, entry, -, rfl⟩ | ⟨k, c, key, -, rfl⟩ |
    ⟨k, row, ⟨-, rfl⟩ | ⟨before, old, after, -, -, rfl⟩⟩ | ⟨image, before, after, -, rfl⟩ |
    ⟨payloadId, name, value, rfl, -⟩
  · rfl
  · exact s.parameters_withShelf _
  · exact s.parameters_withShelf _
  · exact s.parameters_withShelf _
  · exact s.parameters_withShelf _
  · exact s.parameters_withShelf _
  · exact absurd rfl (hother payloadId name value)

end Rows

namespace Store
variable {payloadId name text : String}

/-- The rows are the texts of the last values. -/
theorem mem_parameters_iff (edits : List Edit) :
    (⟨payloadId, name, text⟩ : Parameter) ∈ (edited {} edits).parameters ↔
      ∃ value, LastSet edits payloadId name value ∧ text = value.text := by
  induction edits using List.reverseRecOn with
  | nil =>
    constructor
    · exact fun h => absurd h List.not_mem_nil
    · rintro ⟨value, h, -⟩
      exact absurd h.mem List.not_mem_nil
  | append_singleton edits e ih =>
    have hs := keyed_edited edits
    have houtcome := edit_outcome hs e
    simp only [edited_concat, lastSet_concat_iff]
    by_cases he : ∃ payloadId name value, e = .parameter payloadId name value
    · obtain ⟨id, n, v, rfl⟩ := he
      rw [(houtcome.2).mem_iff hs, ih]
      simp only [Parameter.mk.injEq, Edit.parameter.injEq, ne_eq, Prod.mk.injEq]
      constructor
      · rintro (⟨rfl, rfl, rfl⟩ | ⟨⟨value, hlast, rfl⟩, hne⟩)
        · exact ⟨v, .inl ⟨rfl, rfl, rfl⟩, rfl⟩
        · exact ⟨value, .inr ⟨hlast, fun later h => hne ⟨h.1.symm, h.2.1.symm⟩⟩, rfl⟩
      · rintro ⟨value, ⟨rfl, rfl, rfl⟩ | ⟨hlast, hother⟩, rfl⟩
        · exact .inl ⟨rfl, rfl, rfl⟩
        · exact .inr ⟨⟨value, hlast, rfl⟩, fun h => hother v ⟨h.1.symm, h.2.symm, rfl⟩⟩
    · have hother (value : Json) : e ≠ .parameter payloadId name value := fun heq =>
        he ⟨payloadId, name, value, heq⟩
      rw [houtcome.parameters_eq fun id n v heq => he ⟨id, n, v, heq⟩, ih]
      simp [hother]

/-- The parameters of one payload have different names. -/
theorem nodup_names {s : Store} (hs : s.Keyed) (payloadId : String) :
    ((s.parameters.filter (·.payloadId = payloadId)).map Parameter.name).Nodup := by
  apply ((List.Nodup.of_map _ hs.parameters).filter _).map_on
  intro p hp q hq hname
  obtain ⟨hpmem, hpid⟩ := List.mem_filter.mp hp
  obtain ⟨hqmem, hqid⟩ := List.mem_filter.mp hq
  have hid : p.payloadId = q.payloadId :=
    (of_decide_eq_true hpid).trans (of_decide_eq_true hqid).symm
  exact List.inj_on_of_nodup_map hs.parameters hpmem hqmem (Prod.ext hid hname)

/-- The text of a plain value is that value. -/
theorem parameterValue_text {value : Json} (h : value.Plain parameterDepth) :
    parameterValue value.text = value := by
  rw [parameterValue, h.parse?_text]
  rfl

theorem parametersOf?_eq_none_iff (edits : List Edit) (payloadId : String) :
    (edited {} edits).parametersOf? payloadId = none ↔
      ∀ name value, .parameter payloadId name value ∉ edits := by
  have hrows : (edited {} edits).parametersOf? payloadId = none ↔
      (edited {} edits).parameters.filter (·.payloadId = payloadId) = [] := by
    unfold parametersOf?
    split
    · next hnil => exact iff_of_true rfl hnil
    · next hsome => exact iff_of_false nofun hsome
  rw [hrows, List.filter_eq_nil_iff]
  constructor
  · intro hnone name value hset
    obtain ⟨last, hlast⟩ := exists_lastSet hset
    have hrow := (mem_parameters_iff edits).mpr ⟨last, hlast, rfl⟩
    exact hnone _ hrow (decide_eq_true rfl)
  · rintro hnone ⟨id, name, text⟩ hrow hid
    obtain rfl : id = payloadId := of_decide_eq_true hid
    obtain ⟨value, hlast, -⟩ := (mem_parameters_iff edits).mp hrow
    exact hnone name value hlast.mem

/-- After any changes a payload has parameters exactly if one was set for it. They are an object that
has, in order, each name that was set with the last value that was set, as it was, and no other name.
For the text of a value is read back as the value, whatever characters its strings have and however
its arrays and objects nest, as deep as the reader follows, if it has no floating point number. -/
theorem parameters_exact (edits : List Edit)
    (hplain : ∀ payloadId name value, .parameter payloadId name value ∈ edits →
      value.Plain parameterDepth) (payloadId : String) :
    let found := (edited {} edits).parametersOf? payloadId
    (∀ value, value.Plain parameterDepth → parameterValue value.text = value) ∧
      (found = none ↔ ∀ name value, .parameter payloadId name value ∉ edits) ∧
      ∀ value, found = some value → ∃ members, value = .object members ∧ Json.Ordered members ∧
        ∀ name v, (name, v) ∈ members ↔ LastSet edits payloadId name v := by
  intro found
  refine ⟨fun _ => parameterValue_text, parametersOf?_eq_none_iff edits payloadId,
    fun value hfound => ?_⟩
  let rows := (edited {} edits).parameters.filter (·.payloadId = payloadId)
  let named (p : Parameter) : String × Json := (p.name, parameterValue p.text)
  have hvalue : value = .object (Json.gather (rows.map named)) := by
    unfold found parametersOf? at hfound
    split at hfound
    · cases hfound
    · exact (Option.some.inj hfound).symm
  have hnodup : ((rows.map named).map (·.1)).Nodup := by
    rw [List.map_map]
    exact nodup_names (keyed_edited edits) payloadId
  refine ⟨_, hvalue, Json.ordered_gather _, fun name v => ?_⟩
  rw [Json.mem_gather hnodup, List.mem_map]
  constructor
  · rintro ⟨⟨id, name', text⟩, hrow, heq⟩
    obtain ⟨hmem, hid⟩ := List.mem_filter.mp hrow
    obtain rfl : id = payloadId := of_decide_eq_true hid
    obtain ⟨last, hlast, rfl⟩ := (mem_parameters_iff edits).mp hmem
    have hsame := parameterValue_text (hplain id name' last hlast.mem)
    simp only [named, hsame] at heq
    cases heq
    exact hlast
  · intro hlast
    have hsame := parameterValue_text (hplain payloadId name v hlast.mem)
    refine ⟨⟨payloadId, name, v.text⟩, List.mem_filter.mpr ⟨?_, decide_eq_true rfl⟩, ?_⟩
    · exact (mem_parameters_iff edits).mpr ⟨v, hlast, rfl⟩
    · simp only [named, hsame]

/-- Of two values with quotes, nesting and the greatest and the least integer, one takes the place of
a value that was set before. -/
theorem parameters_exact_nested :
    let motd : Json := .object [("lines", .array [.string "say \"hi\"\n", .null]),
      ("size", .number (.integer (2 ^ 64 - 1)))]
    let disks : Json := .array [.number (.integer (-2 ^ 63)), .bool true]
    let edits : List Edit := [.parameter "ubuntu" "motd" (.string "old"),
      .parameter "ubuntu" "disks" disks, .parameter "rocky" "motd" .null,
      .parameter "ubuntu" "motd" motd]
    (∀ payloadId name value, .parameter payloadId name value ∈ edits →
        value.Plain parameterDepth) ∧
      (∃ members, (edited {} edits).parametersOf? "ubuntu" = some (.object members) ∧
        Json.Ordered members ∧ ("motd", motd) ∈ members ∧ ("disks", disks) ∈ members ∧
        ("motd", .string "old") ∉ members) ∧
      (edited {} edits).parametersOf? "alma" = none := by
  intro motd disks edits
  have hlines : Json.Plain 126 (.array [.string "say \"hi\"\n", .null]) :=
    .array (by simp [Json.Plain.string, Json.Plain.null])
  have hmotd : motd.Plain parameterDepth := by
    refine .object (by unfold Json.Ordered; decide) ?_
    simp only [List.forall_mem_cons]
    exact ⟨hlines, .integer (by decide) (by decide), nofun⟩
  have hdisks : disks.Plain parameterDepth := by
    apply Json.Plain.array
    simp only [List.forall_mem_cons]
    exact ⟨.integer (by decide) (by decide), .bool true, nofun⟩
  have hplain : ∀ payloadId name value, .parameter payloadId name value ∈ edits →
      value.Plain parameterDepth := by
    intro payloadId name value h
    simp only [edits, List.mem_cons, Edit.parameter.injEq, List.not_mem_nil, or_false] at h
    rcases h with ⟨-, -, rfl⟩ | ⟨-, -, rfl⟩ | ⟨-, -, rfl⟩ | ⟨-, -, rfl⟩
    · exact .string "old"
    · exact hdisks
    · exact .null
    · exact hmotd
  obtain ⟨-, hnone, hsome⟩ := parameters_exact edits hplain "ubuntu"
  obtain ⟨-, halma, -⟩ := parameters_exact edits hplain "alma"
  have hset : (edited {} edits).parametersOf? "ubuntu" ≠ none := fun h =>
    hnone.mp h "motd" motd (by simp [edits])
  obtain ⟨value, hvalue⟩ := Option.ne_none_iff_exists'.mp hset
  obtain ⟨members, rfl, hordered, hmembers⟩ := hsome value hvalue
  refine ⟨hplain, ⟨members, hvalue, hordered, ?_, ?_, fun hold => ?_⟩, halma.mpr ?_⟩
  · exact (hmembers _ _).mpr ⟨edits.take 3, [], rfl, nofun⟩
  · exact (hmembers _ _).mpr ⟨edits.take 1, edits.drop 2, rfl, by simp [edits]⟩
  · have hlast : LastSet (edits.take 3 ++ [.parameter "ubuntu" "motd" motd]) "ubuntu" "motd"
        (.string "old") := (hmembers _ _).mp hold
    rcases lastSet_concat_iff.mp hlast with heq | ⟨-, hother⟩
    · simp [motd] at heq
    · exact hother motd rfl
  · simp [edits]

end Store
end FleetBoot
