import FleetBoot.Service.Assign
import FleetBoot.Proofs.Text.Search

/-! What a rejection shows: the text of the key that was asked for, and the texts of those that there
are. The text of an image key is its tag and its type with a slash between them, and does not tell
this slash from others, so that a key that is not in the catalog can have the text of one that is. -/
namespace FleetBoot

namespace Text
variable {c : Char} {a b s t : List Char}

/-- Two ways to cut a text at the same character are one, or one of them cuts later. -/
theorem cut_cases (h : a ++ c :: s = b ++ c :: t) :
    a = b ∧ s = t ∨ (∃ m, a = b ++ c :: m ∧ t = m ++ c :: s) ∨
      ∃ m, b = a ++ c :: m ∧ s = m ++ c :: t := by
  rcases List.append_eq_append_iff.mp h with ⟨m, hb, hs⟩ | ⟨m, ha, ht⟩
  · cases m with
    | nil => exact .inl ⟨by simpa using hb.symm, (List.cons.inj hs).2⟩
    | cons d m =>
      obtain ⟨rfl, rfl⟩ := List.cons.inj hs
      exact .inr (.inr ⟨m, hb, rfl⟩)
  · cases m with
    | nil => exact .inl ⟨by simpa using ha, (List.cons.inj ht).2.symm⟩
    | cons d m =>
      obtain ⟨rfl, rfl⟩ := List.cons.inj ht
      exact .inr (.inl ⟨m, ha, rfl⟩)

end Text

namespace ImageKey
variable {a b : ImageKey}

/-- The tag of `a` has a slash at which the text is cut for `b`. -/
def CutLater (a b : ImageKey) : Prop :=
  ∃ middle : String, a.tag = b.tag ++ "/" ++ middle ∧ b.type = middle ++ "/" ++ a.type

theorem CutLater.text_eq (h : a.CutLater b) : a.text = b.text := by
  obtain ⟨middle, htag, htype⟩ := h
  simp only [text, htag, htype, String.append_assoc]

theorem toList_text (a : ImageKey) : a.text.toList = a.tag.toList ++ '/' :: a.type.toList := by
  simp [text]

theorem cutLater_of_toList {m : List Char} (htag : a.tag.toList = b.tag.toList ++ '/' :: m)
    (htype : b.type.toList = m ++ '/' :: a.type.toList) : a.CutLater b := by
  refine ⟨String.ofList m, String.toList_inj.mp ?_, String.toList_inj.mp ?_⟩
  · simp [htag]
  · simp [htype]

/-- Two keys with one text are the same, or cut it at different slashes. -/
theorem text_eq_iff : a.text = b.text ↔ a = b ∨ a.CutLater b ∨ b.CutLater a := by
  constructor
  · intro h
    rw [← String.toList_inj, toList_text, toList_text] at h
    rcases Text.cut_cases h with ⟨htag, htype⟩ | ⟨m, htag, htype⟩ | ⟨m, htag, htype⟩
    · rw [String.toList_inj] at htag htype
      cases a
      cases b
      exact .inl (by rw [ImageKey.mk.injEq]; exact ⟨htag, htype⟩)
    · exact .inr (.inl (cutLater_of_toList htag htype))
    · exact .inr (.inr (cutLater_of_toList htag htype))
  · rintro (rfl | h | h)
    · rfl
    · exact h.text_eq
    · exact h.text_eq.symm

end ImageKey

namespace Kind
variable {k : Kind}

/-- Different keys that have the same text. -/
def CutElsewhere : {k : Kind} → k.Key → k.Key → Prop
  | .payload, _, _ => False
  | .image, a, b => a.CutLater b ∨ b.CutLater a

theorem keyText_eq_iff {a b : k.Key} : keyText a = keyText b ↔ a = b ∨ CutElsewhere a b := by
  cases k with
  | payload => exact (iff_of_eq (or_false (a = b))).symm
  | image => exact ImageKey.text_eq_iff

end Kind

/-- The texts that a rejection shows: what was asked for, and what there is. -/
def ServiceError.shown? : ServiceError → Option (String × List String)
  | .unavailable _ candidate available => some (Kind.keyText candidate, available.map Kind.keyText)
  | _ => none

namespace Service
variable {k : Kind}

theorem requireAvailable_of_mem {candidate : k.Key} {catalog : List k.Key}
    (h : candidate ∈ catalog) : requireAvailable candidate catalog = .ok () := if_pos h

theorem requireAvailable_of_not_mem {candidate : k.Key} {catalog : List k.Key}
    (h : candidate ∉ catalog) :
    requireAvailable candidate catalog = .error (.unavailable k candidate catalog) := if_neg h

/-- What is not in the catalog is rejected, and nothing else. The rejection shows the texts of all
that there is. The text of what was rejected is among them exactly if the catalog has an image key
that cuts the same text at another slash, and so for payloads it never is. -/
theorem rejection_exact (candidate : k.Key) (catalog : List k.Key) :
    let asked := Kind.keyText candidate
    let listed := catalog.map Kind.keyText
    (requireAvailable candidate catalog = .ok () ↔ candidate ∈ catalog) ∧
      ∀ e, requireAvailable candidate catalog = .error e →
        e.shown? = some (asked, listed) ∧
          (asked ∈ listed ↔ ∃ key ∈ catalog, Kind.CutElsewhere candidate key) := by
  intro asked listed
  by_cases hmem : candidate ∈ catalog
  · rw [requireAvailable_of_mem hmem]
    exact ⟨iff_of_true rfl hmem, nofun⟩
  · rw [requireAvailable_of_not_mem hmem]
    refine ⟨iff_of_false nofun hmem, fun e he => ?_⟩
    obtain rfl := Except.error.inj he
    refine ⟨rfl, List.mem_map.trans ⟨?_, ?_⟩⟩
    · rintro ⟨key, hkey, htext⟩
      rcases Kind.keyText_eq_iff.mp htext.symm with rfl | hcut
      · exact absurd hkey hmem
      · exact ⟨key, hkey, hcut⟩
    · rintro ⟨key, hkey, hcut⟩
      exact ⟨key, hkey, (Kind.keyText_eq_iff.mpr (.inr hcut)).symm⟩

/-- A type that the catalog does not have with this tag, though the tag has a slash. -/
theorem rejection_exact_slashes :
    let candidate : ImageKey := ⟨"jammy/22.04", "storage"⟩
    let catalog : List ImageKey := [⟨"jammy/22.04", "gpu"⟩, ⟨"jammy", "22.04"⟩]
    ∃ e, requireAvailable (k := .image) candidate catalog = .error e ∧
      e.shown? = some ("jammy/22.04/storage", ["jammy/22.04/gpu", "jammy/22.04"]) ∧
      ∀ key ∈ catalog, ¬ Kind.CutElsewhere (k := .image) candidate key := by
  intro candidate catalog
  have he : requireAvailable (k := .image) candidate catalog =
      .error (.unavailable .image candidate catalog) := requireAvailable_of_not_mem (by decide)
  obtain ⟨hshown, hlisted⟩ := (rejection_exact (k := .image) candidate catalog).2 _ he
  refine ⟨_, he, hshown, fun key hkey hcut => ?_⟩
  have hmem := hlisted.mpr ⟨key, hkey, hcut⟩
  exact absurd hmem (by decide)

/-- The tag of one image and the type of another both have a slash. The one is not in the catalog,
and is refused with the words that it is not available and that it is. -/
theorem rejection_lists_rejected :
    let candidate : ImageKey := ⟨"jammy/22.04", "gpu"⟩
    let catalog : List ImageKey := [⟨"jammy", "22.04/gpu"⟩]
    ∃ e, requireAvailable (k := .image) candidate catalog = .error e ∧
      e.shown? = some ("jammy/22.04/gpu", ["jammy/22.04/gpu"]) ∧
      e.publicMessage =
        "image jammy/22.04/gpu is not available. Available images: jammy/22.04/gpu" := by
  refine ⟨_, rfl, ?_, ?_⟩ <;> cbv

end Service
end FleetBoot
