import FleetBoot.Proofs.Address.Spelling
import FleetBoot.Proofs.Store.HostRoute
import Mathlib

/-! One default of a kind for each block. The text of a block stands for the block itself, so that a
default is refused exactly where one was registered for the block before, however the two spell it. -/
namespace FleetBoot

namespace NetworkTarget

def kind : NetworkTarget → Kind
  | .payload _ => .payload
  | .image _ => .image

theorem kind_of_key? {target : NetworkTarget} {k : Kind} {key : k.Key}
    (h : target.key? k = some key) : target.kind = k := by
  cases target <;> cases k <;> first | rfl | cases h

end NetworkTarget

/-- The change is to give the block a default of this kind, however the block is spelled. -/
def Edit.Asks (k : Kind) (c : Cidr) : Edit → Prop
  | .enter (.network d) => d.target.kind = k ∧ Cidr.parse d.cidr = .ok c
  | _ => False

namespace Store
variable {j k : Kind} {s t : Store} {b c : Cidr}

/-- A default of this kind stands under the text of the block. -/
def HasBlock (s : Store) (k : Kind) (c : Cidr) : Prop :=
  ∃ row ∈ (s.shelf k).networks, row.subnet = c.text

theorem hasBlock_of_networks (h : (t.shelf k).networks = (s.shelf k).networks) :
    t.HasBlock k c ↔ s.HasBlock k c := by
  rw [HasBlock, HasBlock, h]

theorem AddsNetwork.hasBlock_iff {key : j.Key} (h : s.AddsNetwork t ⟨b.text, key⟩) :
    t.HasBlock k c ↔ j = k ∧ b = c ∨ s.HasBlock k c := by
  subst h
  by_cases hj : j = k
  · subst hj
    have htext : b.text = c.text ↔ b = c := ⟨Cidr.text_injective, congrArg Cidr.text⟩
    simp [HasBlock, htext, or_and_right, exists_or, or_comm]
  · rw [hasBlock_of_networks (congrArg Shelf.networks (shelf_withShelf_of_ne s _ hj)),
      or_iff_right fun h => hj h.1]

/-- Putting back a shelf with the same networks changes no networks. -/
theorem networks_withShelf (s : Store) (shelf : Shelf j)
    (h : shelf.networks = (s.shelf j).networks) (k : Kind) :
    ((s.withShelf shelf).shelf k).networks = (s.shelf k).networks :=
  s.part_withShelf Shelf.networks shelf h k

end Store

namespace Edit
variable {k : Kind} {s t : Store} {e : Edit} {x : Except StoreError e.Reply} {c : Cidr}

/-- After a change the block has the default that it was to be given, and else what it had. -/
theorem Outcome.hasBlock_iff (h : e.Outcome s t x) :
    t.HasBlock k c ↔ e.Asks k c ∨ s.HasBlock k c := by
  have hsame (hnetworks : (t.shelf k).networks = (s.shelf k).networks) (hasks : ¬ e.Asks k c) :
      t.HasBlock k c ↔ e.Asks k c ∨ s.HasBlock k c := by
    rw [Store.hasBlock_of_networks hnetworks, or_iff_right hasks]
  cases e with
  | enter call =>
    cases call with
    | entry entry =>
      rcases h with ⟨-, -, rfl⟩ | ⟨-, -, -, rfl⟩
      · exact hsame rfl id
      · exact hsame (by apply s.networks_withShelf; rfl) id
    | network d =>
      rw [Outcome, Registration.Outcome] at h
      split at h
      · next malformed hparse =>
        obtain ⟨-, rfl⟩ := h
        refine hsame rfl ?_
        rintro ⟨-, hc⟩
        cases hparse.symm.trans hc
      · next b hparse =>
        obtain ⟨j, key, hkey, houtcome⟩ := h
        have hasks : (Edit.enter (.network d)).Asks k c ↔ j = k ∧ b = c := by
          rw [Asks, NetworkTarget.kind_of_key? hkey, hparse, Except.ok.injEq]
        rw [hasks]
        rcases houtcome with ⟨htaken, -, rfl⟩ | ⟨-, -, hadds⟩
        · refine (or_iff_right_of_imp ?_).symm
          rintro ⟨rfl, rfl⟩
          exact htaken
        · exact hadds.hasBlock_iff
  | parameter payloadId name value =>
    obtain ⟨-, ⟨-, rfl⟩ | ⟨before, old, after, -, -, rfl⟩⟩ := h
    · exact hsame (by cases k <;> rfl) id
    · exact hsame (by cases k <;> rfl) id
  | insert row =>
    rcases h with ⟨-, -, rfl⟩ | ⟨-, -, -, rfl⟩
    · exact hsame rfl id
    · exact hsame (by apply s.networks_withShelf; rfl) id
  | update row =>
    rcases h with ⟨-, -, before, old, after, -, -, rfl⟩ | ⟨-, -, rfl⟩
    · exact hsame (by apply s.networks_withShelf; rfl) id
    · exact hsame rfl id
  | remove gone =>
    rcases h with ⟨image, -, -, before, after, -, rfl⟩ | ⟨-, -, rfl⟩
    · exact hsame (by apply s.networks_withShelf; rfl) id
    · exact hsame rfl id

end Edit

namespace Store
variable {k : Kind} {c : Cidr}

/-- A block has a default of a kind if it was to be given one. -/
theorem hasBlock_edited_iff (edits : List Edit) :
    (edited {} edits).HasBlock k c ↔ ∃ e ∈ edits, e.Asks k c := by
  induction edits using List.reverseRecOn with
  | nil =>
    constructor
    · rintro ⟨row, hrow, -⟩
      cases k <;> exact absurd hrow List.not_mem_nil
    · rintro ⟨e, he, -⟩
      exact absurd he List.not_mem_nil
  | append_singleton edits e ih =>
    rw [edited_concat, (edit_outcome (keyed_edited edits) e).hasBlock_iff, ih]
    simp [or_and_right, exists_or, or_comm]

/-- The changes have registered a default of this kind for the block. -/
def Registered (edits : List Edit) (k : Kind) (c : Cidr) : Prop :=
  ∃ before d after, edits = before ++ .enter (.network d) :: after ∧ d.target.kind = k ∧
    Cidr.parse d.cidr = .ok c ∧ ((edited {} before).edit (.enter (.network d))).1 = .ok ()

/-- A default for a block is refused if the block has one of this kind, and else it is added. -/
theorem admits_network {s : Store} {d : NetworkDefault} (hc : Cidr.parse d.cidr = .ok c) :
    s.HasBlock d.target.kind c ∧
        s.edit (.enter (.network d)) = (.error (.occupied (.networks d.target.kind)), s) ∨
      ¬ s.HasBlock d.target.kind c ∧ (s.edit (.enter (.network d))).1 = .ok () := by
  have houtcome := s.enter_outcome (.network d)
  rw [Registration.Outcome, hc] at houtcome
  obtain ⟨k, key, hkey, houtcome⟩ := houtcome
  obtain rfl := NetworkTarget.kind_of_key? hkey
  rcases houtcome with ⟨htaken, hrefused, hsame⟩ | ⟨hfree, hadded, -⟩
  · exact .inl ⟨htaken, Prod.ext hrefused hsame⟩
  · exact .inr ⟨hfree, hadded⟩

/-- The first that asks for a default of a kind for a block is not refused. -/
theorem registered_iff (edits : List Edit) : Registered edits k c ↔ ∃ e ∈ edits, e.Asks k c := by
  constructor
  · rintro ⟨before, d, after, rfl, hkind, hc, -⟩
    exact ⟨.enter (.network d), List.mem_append_right _ List.mem_cons_self, hkind, hc⟩
  · induction edits using List.reverseRecOn with
    | nil => rintro ⟨e, he, -⟩; exact absurd he List.not_mem_nil
    | append_singleton edits e ih =>
      have hkept (hearlier : ∃ e ∈ edits, e.Asks k c) : Registered (edits ++ [e]) k c := by
        obtain ⟨before, d, after, rfl, hkind, hc, hadded⟩ := ih hearlier
        exact ⟨before, d, after ++ [e], by simp, hkind, hc, hadded⟩
      rintro ⟨f, hf, hasks⟩
      rcases List.mem_append.mp hf with hf | hf
      · exact hkept ⟨f, hf, hasks⟩
      · obtain rfl := List.mem_singleton.mp hf
        match f, hasks with
        | .enter (.network d), ⟨hkind, hc⟩ =>
          subst hkind
          rcases admits_network (s := edited {} edits) hc with ⟨htaken, -⟩ | ⟨-, hadded⟩
          · -- a block that has a default was to be given one by an earlier change
            exact hkept ((hasBlock_edited_iff edits).mp htaken)
          · exact ⟨edits, d, [], rfl, rfl, hc, hadded⟩

/-- The text of a block names the block and no other, and a text that names one is changed by
reading and writing it once and not again, whichever of the spellings it is. After any changes, a
default for a block is refused as a key that is taken exactly if one of its kind was registered for
the block before, by whatever spelling, and that is if it was ever asked for. Else it is added. -/
theorem network_keys_exact :
    (∀ c : Cidr, Cidr.parse c.text = .ok c) ∧
      (∀ b c : Cidr, b.text = c.text → b = c) ∧
      (∀ text shown : String, (Cidr.parse text).map Cidr.text = .ok shown →
        (Cidr.parse shown).map Cidr.text = .ok shown) ∧
      (∀ (text : String) (c : Cidr), Cidr.parse text = .ok c ↔
        ∃ before s after a n, text.toList = before ++ s ++ after ∧
          (∀ d ∈ before, Text.isBlank d = true) ∧ (∀ d ∈ after, Text.isBlank d = true) ∧
          Cidr.Spells s a n ∧ Cidr.new a n = .ok c) ∧
      ∀ (edits : List Edit) (d : NetworkDefault) (c : Cidr), Cidr.parse d.cidr = .ok c →
        let s := edited {} edits
        let answer := s.edit (.enter (.network d))
        (Registered edits d.target.kind c ↔ ∃ e ∈ edits, e.Asks d.target.kind c) ∧
          ((∃ detail, answer.1 = .error (.uniqueViolation detail)) ↔
            Registered edits d.target.kind c) ∧
          (answer.1 = .ok () ↔ ¬ Registered edits d.target.kind c) ∧
          (answer.1 ≠ .ok () → answer.2 = s) := by
  have hread (c : Cidr) : Cidr.parse c.text = .ok c :=
    Cidr.parse_eq_ok_iff_parse?.mpr (Cidr.parse?_text c)
  refine ⟨hread, fun b c => Cidr.text_injective, ?_, fun _ _ => Cidr.parse_eq_ok_iff, ?_⟩
  · intro text shown h
    cases hc : Cidr.parse text with
    | error malformed =>
      rw [hc] at h
      cases h
    | ok c =>
      rw [hc] at h
      obtain rfl := Except.ok.inj h
      rw [hread]
      rfl
  · intro edits d c hc s answer
    have hblock : s.HasBlock d.target.kind c ↔ Registered edits d.target.kind c :=
      (hasBlock_edited_iff edits).trans (registered_iff edits).symm
    refine ⟨registered_iff edits, ?_⟩
    rw [← hblock]
    rcases admits_network (s := s) hc with ⟨htaken, hrefused⟩ | ⟨hfree, hadded⟩
    · have hx : answer.1 = .error (.occupied (.networks d.target.kind)) := congrArg Prod.fst hrefused
      refine ⟨iff_of_true ⟨_, hx⟩ htaken, iff_of_false ?_ (not_not_intro htaken),
        fun _ => congrArg Prod.snd hrefused⟩
      intro hok
      cases hx.symm.trans hok
    · refine ⟨iff_of_false ?_ hfree, iff_of_true hadded hfree, fun h => absurd hadded h⟩
      rintro ⟨detail, hx⟩
      cases hadded.symm.trans hx

/-- Two spellings of one block, of which the second is refused for the same kind and taken for the
other. -/
theorem network_keys_exact_respelled :
    let edits : List Edit := [.enter (.network ⟨"10.0.0.0/24", .payload "first"⟩)]
    let respelled := "\t10.0.0.77/+024 "
    let payload : NetworkDefault := ⟨respelled, .payload "second"⟩
    let image : NetworkDefault := ⟨respelled, .image ⟨"22.04", "gpu"⟩⟩
    (∃ detail, ((edited {} edits).edit (.enter (.network payload))).1 =
        .error (.uniqueViolation detail)) ∧
      ((edited {} edits).edit (.enter (.network image))).1 = .ok () := by
  intro edits respelled payload image
  let c : Cidr := ⟨.v4 0x0A000000#32, 24, by decide, by decide⟩
  have hfirst : Cidr.parse "10.0.0.0/24" = .ok c := by cbv
  have hrespelled : Cidr.parse respelled = .ok c := by cbv
  have hasked : ∃ e ∈ edits, e.Asks .payload c := ⟨_, List.mem_cons_self, rfl, hfirst⟩
  have hnever : ¬ ∃ e ∈ edits, e.Asks .image c := by
    rintro ⟨e, he, hasks⟩
    obtain rfl := List.mem_singleton.mp he
    cases hasks.1
  obtain ⟨hpayload, htaken, -⟩ := network_keys_exact.2.2.2.2 edits payload c hrespelled
  obtain ⟨himage, -, hadded, -⟩ := network_keys_exact.2.2.2.2 edits image c hrespelled
  exact ⟨htaken.mpr (hpayload.mpr hasked), hadded.mpr fun h => hnever (himage.mp h)⟩

end Store
end FleetBoot
