import FleetBoot.Proofs.Address.Prefix
import FleetBoot.Proofs.Store.History

/-! The network of one address. No block that holds the address is longer, so that the default of
this network is found for the address, whatever other networks there are. -/
namespace FleetBoot

namespace Address
variable {a : Address} {text : String}

/-- The text spells the address, with blanks around it or not, and no length. -/
def SpelledBy (a : Address) (text : String) : Prop :=
  '/' ∉ text.toList ∧ ofChars? (Text.trimChars text.toList) = some a

theorem spelledBy_text (a : Address) : a.SpelledBy a.text := by
  rw [SpelledBy, text, String.toList_ofList,
    Text.trimChars_eq_self fun c hc => not_blank_of_mem_chars hc]
  exact ⟨a.not_slash_of_mem_chars, ofChars?_chars a⟩

theorem sameFamily_self (a : Address) : a.sameFamily a = true := by cases a <;> rfl

end Address

namespace Cidr
variable {a : Address} {n : Nat} {c : Cidr} {text : String}

/-- The block of the address alone. -/
def host (a : Address) : Cidr where
  network := a.keep a.width
  length := a.width
  length_le := (Address.width_keep a.width a).ge
  kept := Address.keep_keep a.width a

theorem new_host (a : Address) : new a a.width = .ok (host a) := by
  rw [new, ofAddress?, dif_pos le_rfl]
  rfl

theorem parse?_host (h : a.SpelledBy text) : parse? text = some (host a) := by
  obtain ⟨hslash, hread⟩ := h
  have hcut : Text.cutAtChar? '/' (Text.trimChars text.toList) = none :=
    Text.cutAtChar?_of_not_mem fun hmem => hslash (Text.mem_of_mem_trimChars hmem)
  rw [parse?, ofChars?, hcut]
  simp only [hread, Option.bind_eq_bind, Option.bind_some]
  rw [ofAddress?, dif_pos le_rfl]
  rfl

/-- A block around an address, or around the shorter one that it wraps, holds the address. -/
theorem contains_of_new (h : new a.canonical n = .ok c) : c.contains a = true :=
  (contains_iff_of_new h).mpr ⟨a.canonical.sameFamily_self, fun _ _ => rfl⟩

theorem contains_host (a : Address) : (host a.canonical).contains a = true :=
  contains_of_new (new_host a.canonical)

theorem exists_new (h : n ≤ a.width) : ∃ c, new a n = .ok c := by
  rcases new_cases a n with ⟨hlt, -⟩ | ⟨-, c, hc, -⟩
  · exact absurd h (Nat.not_le.mpr hlt)
  · exact ⟨c, hc⟩

/-- A block around an address holds it unless it counts as a shorter one. -/
theorem contains_self_iff (h : new a n = .ok c) : c.contains a = true ↔ a.canonical = a := by
  rw [contains_iff_of_new h]
  constructor
  · rintro ⟨hfamily, -⟩
    rcases a.canonical_cases with ⟨bits, ha, hshort⟩ | ⟨-, hself⟩
    · rw [hshort, ha] at hfamily
      cases hfamily
    · exact hself
  · intro hself
    rw [hself]
    exact ⟨a.sameFamily_self, fun _ _ => rfl⟩

theorem length_le_of_contains (h : c.contains a = true) : c.length ≤ a.canonical.width :=
  Address.width_eq_of_sameFamily (contains_iff.mp h).1 ▸ c.length_le

end Cidr

namespace Shelf
variable {k : Kind} {s : Shelf k} {a : Address} {row : NetworkRow k} {e : k.Entry}

/-- The row is that of the address's own network, and the catalog has its entry. -/
theorem covering_host (hsubnet : row.subnet = (Cidr.host a.canonical).text)
    (he : s.lookup? row.key = some e) : s.covering a row = some (a.canonical.width, e) :=
  covering_eq_some_iff.mpr ⟨he, _, by rw [hsubnet, Cidr.parse?_text], Cidr.contains_host a, rfl⟩

theorem length_le_of_covering {n : Nat} (h : s.covering a row = some (n, e)) :
    n ≤ a.canonical.width := by
  obtain ⟨-, c, -, hcontains, rfl⟩ := covering_eq_some_iff.mp h
  exact Cidr.length_le_of_contains hcontains

/-- The own network of an address is the smallest around it. -/
theorem smallest_host (hrow : row ∈ s.networks)
    (hsubnet : row.subnet = (Cidr.host a.canonical).text) (he : s.lookup? row.key = some e) :
    s.Smallest a row e :=
  ⟨hrow, _, covering_host hsubnet he, fun _ _ _ _ h => length_le_of_covering h⟩

end Shelf

namespace Edit
variable {k : Kind} {s t : Store} {e : Edit} {x : Except StoreError e.Reply}

/-- A change adds at most one network, under the text of its block, and takes none away. -/
theorem Outcome.networks_cases (h : e.Outcome s t x) :
    (t.shelf k).networks = (s.shelf k).networks ∨ ∃ (c : Cidr) (key : k.Key),
      (t.shelf k).networks = (s.shelf k).networks ++ [⟨c.text, key⟩] := by
  have hkept {j : Kind} (shelf : Shelf j) (hnetworks : shelf.networks = (s.shelf j).networks) :
      ((s.withShelf shelf).shelf k).networks = (s.shelf k).networks :=
    s.part_withShelf Shelf.networks shelf hnetworks k
  rcases h.step_cases with rfl | ⟨j, entry, -, rfl⟩ | ⟨j, c, key, -, rfl⟩ |
    ⟨j, row, ⟨-, rfl⟩ | ⟨before, old, after, -, -, rfl⟩⟩ | ⟨image, before, after, -, rfl⟩ |
    ⟨payloadId, name, value, -, ⟨-, rfl⟩ | ⟨before, old, after, -, -, rfl⟩⟩
  · exact .inl rfl
  · exact .inl (hkept _ rfl)
  · by_cases hj : j = k
    · subst hj
      exact .inr ⟨c, key, by rw [Store.shelf_withShelf]⟩
    · exact .inl (by rw [Store.shelf_withShelf_of_ne s _ hj])
  · exact .inl (hkept _ rfl)
  · exact .inl (hkept _ rfl)
  · exact .inl (hkept _ rfl)
  · exact .inl (by cases k <;> rfl)
  · exact .inl (by cases k <;> rfl)

end Edit

namespace Store
variable {k : Kind} {s t : Store}

theorem edited_append (s : Store) (before after : List Edit) :
    s.edited (before ++ after) = (s.edited before).edited after := List.foldl_append

/-- Networks stay in their places. -/
theorem networks_edited (hs : s.Keyed) (edits : List Edit) :
    (s.shelf k).networks <+: ((s.edited edits).shelf k).networks := by
  induction edits generalizing s with
  | nil => exact List.prefix_rfl
  | cons e edits ih =>
    have houtcome := edit_outcome hs e
    have hrest := ih (houtcome.keyed hs)
    rcases houtcome.networks_cases (k := k) with hsame | ⟨c, key, hadded⟩
    · rwa [hsame] at hrest
    · rw [hadded] at hrest
      exact (List.prefix_append _ _).trans hrest

/-- All networks stand under the texts of their blocks. -/
theorem canonical_edited (edits : List Edit) (k : Kind) : ((edited {} edits).shelf k).Canonical := by
  induction edits using List.reverseRecOn with
  | nil => cases k <;> exact fun _ hrow => absurd hrow List.not_mem_nil
  | append_singleton edits e ih =>
    rw [edited_concat]
    rcases (edit_outcome (keyed_edited edits) e).networks_cases (k := k) with hsame | ⟨c, key, hadded⟩
    · rwa [Shelf.Canonical, hsame]
    · rw [Shelf.Canonical, hadded]
      exact List.forall_mem_append.mpr ⟨ih, List.forall_mem_singleton.mpr ⟨c, rfl⟩⟩

/-- A default that the database has taken is a row of the network that its text names. -/
theorem mem_networks_of_edit {d : NetworkDefault} {c : Cidr} {key : k.Key}
    (h : (s.edit (.enter (.network d))).1 = .ok ()) (hc : Cidr.parse? d.cidr = some c)
    (hkey : d.target.key? k = some key) :
    (⟨c.text, key⟩ : NetworkRow k) ∈ (((s.edit (.enter (.network d))).2).shelf k).networks := by
  cases ht : s.enter (.network d) with
  | error cause =>
    rw [edit, ht] at h
    cases h
  | ok t =>
    have hrow : (Registration.network d).row? k = some ⟨c.text, key⟩ :=
      Registration.row?_eq_some_iff.mpr ⟨c, hc, rfl, hkey⟩
    rw [edit, ht]
    change _ ∈ (t.shelf k).networks
    rw [(enter_ok ht).2.1 k, Shelf.entered_network hrow]
    exact List.mem_append_right _ List.mem_cons_self

/-- A block of any length around an address holds it, unless the address wraps a shorter one, which
it then counts as. The text of an address names such a block, and a default that was registered
under this text, before or after other changes, is what the address is given while the catalog has
its target. -/
theorem host_found (a : Address) :
    let b := a.canonical
    ((∃ bits, a = .v6 (Address.mapped bits) ∧ b = .v4 bits) ∨
        (∀ bits, a ≠ .v6 (Address.mapped bits)) ∧ b = a) ∧
      (∀ n ≤ a.width, ∃ c, Cidr.new a n = .ok c ∧ (c.contains a = true ↔ b = a)) ∧
      (∀ n ≤ b.width, ∃ c, Cidr.new b n = .ok c ∧ c.contains a = true) ∧
      b.SpelledBy b.text ∧
      ∀ text, b.SpelledBy text →
        (∃ c, Cidr.parse text = .ok c ∧ c.contains a = true) ∧
        ∀ (target : NetworkTarget) (k : Kind) (key : k.Key) (e : k.Entry) (before after : List Edit),
          target.key? k = some key →
          ((edited {} before).edit (.enter (.network ⟨text, target⟩))).1 = .ok () →
          let s := edited {} (before ++ .enter (.network ⟨text, target⟩) :: after)
          (s.shelf k).lookup? key = some e → (s.shelf k).networkDefault a = some e := by
  intro b
  refine ⟨a.canonical_cases, fun n hn => ?_, fun n hn => ?_, b.spelledBy_text, fun text htext =>
    ⟨⟨Cidr.host b, ?_, Cidr.contains_host a⟩, ?_⟩⟩
  · obtain ⟨c, hc⟩ := Cidr.exists_new hn
    exact ⟨c, hc, Cidr.contains_self_iff hc⟩
  · obtain ⟨c, hc⟩ := Cidr.exists_new hn
    exact ⟨c, hc, Cidr.contains_of_new hc⟩
  · rw [Cidr.parse, Cidr.parse?_host htext]
  · intro target k key e before after hkey hadded s he
    have hs := (keyed_edited (before ++ .enter (.network ⟨text, target⟩) :: after)).shelf k
    apply (Shelf.networkDefault_eq_some_iff hs (canonical_edited _ k)).mpr
    have hrow := mem_networks_of_edit hadded (Cidr.parse?_host htext) hkey
    have hkeyed : ((edited {} before).edit (.enter (.network ⟨text, target⟩))).2.Keyed :=
      (edit_outcome (keyed_edited before) _).keyed (keyed_edited before)
    refine ⟨⟨(Cidr.host b).text, key⟩, Shelf.smallest_host ?_ rfl he⟩
    rw [edited_append]
    exact (networks_edited hkeyed after).subset hrow

/-- A block in the longer form of a short address does not hold the address that is so written. -/
theorem host_missed_wrapped :
    let a : Address := .v6 (Address.mapped 0x0A000001#32)
    let site : Payload := ⟨"site", "/srv/site"⟩
    let text := "::ffff:10.0.0.1"
    a.SpelledBy text ∧
      (∃ c, Cidr.new a 0 = .ok c ∧ c.contains a = false) ∧
      (∃ c, Cidr.parse text = .ok c ∧ c.contains a = false) ∧
      ∃ t, enterAll {} [.entry (k := .payload) site, .network ⟨text, .payload "site"⟩] = .ok t ∧
        t.payloads.lookup? "site" = some site ∧ t.payloads.networkDefault a = none := by
  intro a site text
  have hspelled : a.SpelledBy text := ⟨by decide +kernel, by decide +kernel⟩
  have hparse : Cidr.parse text = .ok (Cidr.host a) := by
    rw [Cidr.parse, Cidr.parse?_host hspelled]
  refine ⟨hspelled, ⟨_, rfl, by decide +kernel⟩, ⟨_, hparse, by decide +kernel⟩, ?_⟩
  let row : NetworkRow .payload := ⟨(Cidr.host a).text, "site"⟩
  let t : Store := { payloads := { catalog := [site], networks := [row] } }
  refine ⟨t, ?_, rfl, by decide +kernel⟩
  change ((addNetworkDefault { payloads := { catalog := [site] } } ⟨text, .payload "site"⟩).bind
    .ok) = .ok t
  rw [addNetworkDefault, hparse]
  rfl

end Store
end FleetBoot
