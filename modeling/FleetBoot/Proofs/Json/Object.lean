import FleetBoot.Json.Basic
import Mathlib.Data.List.Induction

/-! Objects that are put together of members in any order: the members are ordered by name, and of
each name there is the last. -/
namespace FleetBoot.Json
variable {name : String} {value : Json} {members : List (String × Json)} {m : String × Json}

/-- Every name is greater than those before it. -/
def Ordered (members : List (String × Json)) : Prop := members.Pairwise fun m n => m.1 < n.1

/-- A member that is put among others stands after the smaller names and before the greater ones. -/
theorem putMember_eq (h : Ordered members) (name : String) (value : Json) :
    putMember name value members =
      members.filter (·.1 < name) ++ (name, value) :: members.filter (name < ·.1) := by
  induction members with
  | nil => rfl
  | cons head rest ih =>
    obtain ⟨n, v⟩ := head
    obtain ⟨hhead, hrest⟩ := List.pairwise_cons.mp h
    have hgreater {members : List (String × Json)} (hall : ∀ m ∈ members, name < m.1) :
        members.filter (·.1 < name) = [] ∧ members.filter (name < ·.1) = members := by
      constructor
      · exact List.filter_eq_nil_iff.mpr fun m hm =>
          (decide_eq_true_iff.not.mpr (String.lt_asymm (hall m hm)))
      · exact List.filter_eq_self.mpr fun m hm => decide_eq_true (hall m hm)
    rw [putMember]
    split
    · next hlt =>
      have hall : ∀ m ∈ (n, v) :: rest, name < m.1 :=
        List.forall_mem_cons.mpr ⟨hlt, fun m hm => String.lt_trans hlt (hhead m hm)⟩
      rw [(hgreater hall).1, (hgreater hall).2]
      rfl
    · next hnot =>
      split
      · next heq =>
        subst heq
        obtain ⟨hnone, hself⟩ := hgreater hhead
        have hsame : ¬ decide (name < name) = true :=
          decide_eq_true_iff.not.mpr (String.lt_irrefl name)
        rw [List.filter_cons, List.filter_cons, if_neg hsame, if_neg hsame, hnone, hself]
        rfl
      · next hne =>
        have hlt : n < name := by
          rcases Std.lt_trichotomy name n with hlt | heq | hlt
          · exact absurd hlt hnot
          · exact absurd heq hne
          · exact hlt
        rw [ih hrest, List.filter_cons, List.filter_cons, if_pos (decide_eq_true hlt),
          if_neg (decide_eq_true_iff.not.mpr hnot)]
        rfl

/-- It takes the place of that of its name, if there is one. -/
theorem mem_putMember (h : Ordered members) :
    m ∈ putMember name value members ↔ m = (name, value) ∨ m ∈ members ∧ m.1 ≠ name := by
  have hne : m.1 ≠ name ↔ m.1 < name ∨ name < m.1 := by
    constructor
    · intro hne
      exact (Std.lt_trichotomy m.1 name).imp_right fun h => h.resolve_left hne
    · rintro (hlt | hlt) heq
      · exact String.lt_irrefl name (heq ▸ hlt)
      · exact String.lt_irrefl name (heq ▸ hlt)
  simp only [putMember_eq h, List.mem_append, List.mem_cons, List.mem_filter, decide_eq_true_eq, hne]
  tauto

theorem Ordered.putMember (h : Ordered members) (name : String) (value : Json) :
    Ordered (putMember name value members) := by
  rw [putMember_eq h]
  apply List.pairwise_append.mpr ⟨h.filter _, List.pairwise_cons.mpr ⟨?_, h.filter _⟩, ?_⟩
  · intro m hm
    exact of_decide_eq_true (List.mem_filter.mp hm).2
  · intro m hm n hn
    have hsmall : m.1 < name := of_decide_eq_true (List.mem_filter.mp hm).2
    rcases List.mem_cons.mp hn with rfl | hn
    · exact hsmall
    · exact String.lt_trans hsmall (of_decide_eq_true (List.mem_filter.mp hn).2)

/-- Members one after the other, each put in its place. -/
def gather (members : List (String × Json)) : List (String × Json) :=
  members.foldl (fun acc (n, v) => putMember n v acc) []

theorem gather_concat (members : List (String × Json)) (name : String) (value : Json) :
    gather (members ++ [(name, value)]) = putMember name value (gather members) := by
  rw [gather, List.foldl_append]
  rfl

theorem ordered_gather (members : List (String × Json)) : Ordered (gather members) := by
  induction members using List.reverseRecOn with
  | nil => exact List.Pairwise.nil
  | append_singleton members m ih =>
    rw [gather_concat]
    exact ih.putMember m.1 m.2

/-- Where no name comes twice all members stay. -/
theorem mem_gather (h : (members.map (·.1)).Nodup) : m ∈ gather members ↔ m ∈ members := by
  induction members using List.reverseRecOn with
  | nil => exact Iff.rfl
  | append_singleton members last ih =>
    rw [List.map_append, List.nodup_append] at h
    obtain ⟨hmembers, -, hlast⟩ := h
    have hother : m ∈ members → m.1 ≠ last.1 := fun hm =>
      hlast m.1 (List.mem_map_of_mem hm) last.1 List.mem_cons_self
    rw [gather_concat, mem_putMember (ordered_gather members), ih hmembers, List.mem_append,
      List.mem_singleton]
    constructor
    · rintro (rfl | ⟨hm, -⟩)
      · exact .inr rfl
      · exact .inl hm
    · rintro (hm | rfl)
      · exact .inr ⟨hm, hother hm⟩
      · exact .inl rfl

/-- Ordered members stay in their places. -/
theorem gather_of_ordered (h : Ordered members) : gather members = members := by
  induction members using List.reverseRecOn with
  | nil => rfl
  | append_singleton members last ih =>
    obtain ⟨hmembers, -, hlast⟩ := List.pairwise_append.mp h
    have hsmall : ∀ m ∈ members, m.1 < last.1 := fun m hm => hlast m hm last List.mem_cons_self
    rw [gather_concat, ih hmembers, putMember_eq hmembers,
      List.filter_eq_self.mpr fun m hm => decide_eq_true (hsmall m hm),
      List.filter_eq_nil_iff.mpr fun m hm => decide_eq_true_iff.not.mpr (String.lt_asymm (hsmall m hm))]

end FleetBoot.Json
