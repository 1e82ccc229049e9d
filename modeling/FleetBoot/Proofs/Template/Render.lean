import FleetBoot.Proofs.Template.Parse

/-! What templates come to: a script is the source with texts of the configuration in the place of
its placeholders, so that two sources one after the other come to their two scripts. -/
namespace FleetBoot.Template
open Text (FirstAt cutAt?_eq_some_iff cutAt?_eq_none_iff)

/-- In the JSON of a configuration the names of a field lead to its text, or to nothing if it has
none. -/
theorem lookUp_path (f : Field) (c : BootConfig) :
    lookUp f.path c.toJson = (f.value? c).map Json.string := by
  obtain ⟨name, bucket, tag, type, cmdline, initrd, kernel, rootfs, file, hostname⟩ := c
  cases f with
  | url asset scheme => cases file <;> cases asset <;> cases scheme <;> rfl
  | _ => rfl

/-- A placeholder's place in a script. -/
def Slot.filled (slot : Slot) (c : BootConfig) : List Char :=
  ((slot.field.value? c).getD "").toList

theorem render_field (slot : Slot) (c : BootConfig) :
    (Segment.field slot.field.path).render c.toJson = slot.filled c := by
  rw [Segment.render, lookUp_path, Slot.filled]
  cases slot.field.value? c <;> rfl

theorem flatMap_literal (v : Json) (s : List Char) (more : List Segment) :
    (literal s more).flatMap (·.render v) = s ++ more.flatMap (·.render v) := by
  cases s <;> simp [literal, Segment.render]

/-- The script for a source with these slots and this text after the last. -/
def script (slots : List Slot) (tail : List Char) (c : BootConfig) : List Char :=
  slots.flatMap (fun slot => slot.before ++ slot.filled c) ++ tail

theorem render_segmentsOf (slots : List Slot) (tail : List Char) (c : BootConfig) :
    (⟨segmentsOf slots (literal tail [])⟩ : Template).render c =
      String.ofList (script slots tail c) := by
  rw [render]
  apply congrArg String.ofList
  induction slots with
  | nil => simp [segmentsOf, script, flatMap_literal]
  | cons slot slots ih =>
    change (literal slot.before (_ :: segmentsOf slots (literal tail []))).flatMap _ = _
    rw [flatMap_literal, List.flatMap_cons, render_field, ih]
    simp [script]

theorem field_mem_literal {s : List Char} {path : List String} {more : List Segment} :
    .field path ∈ literal s more ↔ .field path ∈ more := by
  cases s <;> simp [literal]

theorem field_mem_segmentsOf {slots : List Slot} {tail : List Char} {path : List String} :
    .field path ∈ segmentsOf slots (literal tail []) ↔ ∃ slot ∈ slots, path = slot.field.path := by
  induction slots with
  | nil => simp [segmentsOf, field_mem_literal]
  | cons slot slots ih =>
    change .field path ∈ literal slot.before (_ :: segmentsOf slots (literal tail [])) ↔ _
    simp [field_mem_literal, ih]

section Render
variable {source : String} {t : Template}

/-- A script is the source with the text of its field in the place of every placeholder, or with
nothing there if the configuration has no file and the field is an address of it. All names in a
template lead to a text or, in that case alone, to nothing. -/
theorem render_exact (h : parse source = .ok t) : ∃ (slots : List Slot) (tail : List Char),
    Scanned source.toList (slots.map Slot.toPlaceholder) tail ∧ ¬ opening <:+: tail ∧
      source.toList = slots.flatMap (fun slot => slot.before ++ slot.span) ++ tail ∧
      ∀ c : BootConfig,
        (t.render c).toList = slots.flatMap (fun slot => slot.before ++ slot.filled c) ++ tail ∧
          ∀ path, .field path ∈ t.segments → ∃ f : Field, path = f.path ∧
            lookUp path c.toJson = (f.value? c).map .string ∧
            (f.value? c = none ↔ c.file = none ∧ ∃ scheme, f = .url .file scheme) := by
  obtain ⟨slots, tail, hslots, hclear, rfl⟩ := slots_of_parse h
  refine ⟨slots, tail, hslots, hclear, ?_, fun c => ⟨?_, fun path hpath => ?_⟩⟩
  · rw [hslots.source_eq, List.flatMap_map]
    rfl
  · rw [render_segmentsOf, String.toList_ofList, script]
  · obtain ⟨slot, -, rfl⟩ := field_mem_segmentsOf.mp hpath
    exact ⟨slot.field, rfl, lookUp_path slot.field c, Field.value?_eq_none_iff⟩

/-- A configuration without a file, and with a command line that looks like a placeholder. -/
theorem render_exact_braces :
    let source := "[\x7b\x7b image_url.https \x7d\x7d] \x7b\x7bimage_cmdline\x7d\x7d"
    let t : Template := ⟨[.literal ['['], .field ["image_url", "https"], .literal [']', ' '],
      .field ["image_cmdline"]]⟩
    let url := SignedUrl.ofHttps "https://s3/debian-12/vmlinuz"
    let c : BootConfig := ⟨"debian-12", "images", "12", "worker", "\x7b\x7b hostname \x7d\x7d",
      url, url, url, none, "g112233"⟩
    parse source = .ok t ∧ t.render c = "[] \x7b\x7b hostname \x7d\x7d" ∧
      lookUp ["image_url", "https"] c.toJson = none ∧
      ∃ (slots : List Slot) (tail : List Char),
        Scanned source.toList (slots.map Slot.toPlaceholder) tail ∧
          (t.render c).toList =
            slots.flatMap (fun slot => slot.before ++ slot.filled c) ++ tail := by
  intro source t url c
  have hparse : parse source = .ok t := by cbv
  obtain ⟨slots, tail, hscanned, -, -, hrender⟩ := render_exact hparse
  exact ⟨hparse, by cbv, by cbv, slots, tail, hscanned, (hrender c).1⟩

end Render

section Append
variable {s x tail : List Char} {slots : List Slot}

/-- What is found in a source is found behind a text without an opening, if none arises between
the two. -/
theorem exists_slots_behind (h : Scanned s (slots.map Slot.toPlaceholder) tail)
    (hclear : ¬ opening <:+: tail) (hx : ¬ opening <:+: x)
    (hseam : x.getLast? = some '{' → s.head? ≠ some '{') :
    ∃ (slots' : List Slot) (tail' : List Char),
      Scanned (x ++ s) (slots'.map Slot.toPlaceholder) tail' ∧ ¬ opening <:+: tail' ∧
        ∀ c, script slots' tail' c = x ++ script slots tail c := by
  cases slots with
  | nil =>
    cases h
    refine ⟨[], x ++ s, .start _, ?_, fun c => rfl⟩
    rw [← cutAt?_eq_none_iff, opening, Text.cutAt?_append hx hseam, ← opening,
      cutAt?_eq_none_iff.mpr hclear]
    rfl
  | cons slot slots =>
    cases h with
    | @next _ inner _ _ _ _ hopening hclosing h =>
      let moved : Slot := { slot with before := x ++ slot.before }
      have hmoved : FirstAt opening moved.before inner (x ++ s) := by
        rw [← cutAt?_eq_some_iff, opening, Text.cutAt?_append hx hseam, ← opening,
          cutAt?_eq_some_iff.mpr hopening]
        rfl
      refine ⟨moved :: slots, tail, .next hmoved hclosing h, hclear, fun c => ?_⟩
      simp [script, moved, Slot.filled]

/-- Two templates one after the other make a template, unless they meet in an opening. Its scripts
are theirs, one after the other. -/
theorem render_append {a b : String} {t u : Template} (ha : parse a = .ok t)
    (hb : parse b = .ok u) (hseam : ¬ (a.toList.getLast? = some '{' ∧ b.toList.head? = some '{')) :
    ∃ both, parse (a ++ b) = .ok both ∧ ∀ c, both.render c = t.render c ++ u.render c := by
  obtain ⟨slots, tail, hslots, hclear, rfl⟩ := slots_of_parse ha
  obtain ⟨slots', tail', hslots', hclear', rfl⟩ := slots_of_parse hb
  have hmeet : tail.getLast? = some '{' → b.toList.head? ≠ some '{' := by
    intro hlast hhead
    refine hseam ⟨?_, hhead⟩
    simp [hslots.source_eq, List.getLast?_append, hlast]
  obtain ⟨behind, rest, hbehind, hrest, hscript⟩ :=
    exists_slots_behind hslots' hclear' hclear hmeet
  have hall : Scanned (a ++ b).toList ((slots ++ behind).map Slot.toPlaceholder) rest := by
    rw [String.toList_append, List.map_append]
    exact (hslots.append b.toList).trans hbehind
  refine ⟨_, parse_of_clear hall hrest, fun c => ?_⟩
  have hsplit : script (slots ++ behind) rest c = script slots tail c ++ script slots' tail' c := by
    simp only [script, List.flatMap_append, List.append_assoc] at hscript ⊢
    rw [hscript]
  simp only [render_segmentsOf, hsplit, String.ofList_append]

/-- A stray brace at the end of one template, and two at the start of the next. -/
theorem render_append_stray :
    let a := "\x7b\x7bhostname\x7d\x7d\x7b"
    let b := "\x7d\x7d\x7b\x7b image_tag \x7d\x7d"
    let t : Template := ⟨[.field ["hostname"], .literal ['{']]⟩
    let u : Template := ⟨[.literal ['}', '}'], .field ["image_tag"]]⟩
    parse a = .ok t ∧ parse b = .ok u ∧
      ¬ (a.toList.getLast? = some '{' ∧ b.toList.head? = some '{') ∧
      ∃ both, parse (a ++ b) = .ok both ∧ ∀ c, both.render c = t.render c ++ u.render c := by
  intro a b t u
  have ha : parse a = .ok t := by cbv
  have hb : parse b = .ok u := by cbv
  have hseam : ¬ (a.toList.getLast? = some '{' ∧ b.toList.head? = some '{') := by decide
  exact ⟨ha, hb, hseam, render_append ha hb hseam⟩

end Append

end FleetBoot.Template
