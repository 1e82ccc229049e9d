import FleetBoot.Proofs.Template.Placeholder

/-! Which sources are templates, what is blamed in the others, and what a template keeps of its
source. -/
namespace FleetBoot.Template
open Text (FirstAt cutAt?_eq_some_iff cutAt?_eq_none_iff)

theorem byteSize_eq (s : List Char) : byteSize s = (String.ofList s).utf8ByteSize := by
  induction s with
  | nil => rfl
  | cons c s ih =>
    simp only [String.utf8ByteSize_ofList] at ih ⊢
    simp [byteSize, ← ih, Nat.add_comm]

theorem byteSize_append (s t : List Char) : byteSize (s ++ t) = byteSize s + byteSize t := by
  simp [byteSize_eq]

theorem byteSize_text (p : Placeholder) :
    byteSize p.text = byteSize p.before + 2 + byteSize p.content + 2 := by
  have hopening : byteSize opening = 2 := rfl
  have hclosing : byteSize closing = 2 := rfl
  simp only [Placeholder.text, Placeholder.span, byteSize_append, hopening, hclosing]
  omega

section Scan
variable {s before inner content rest tail : List Char} {slots : List Slot}

theorem scan_of_clear (h : ¬ opening <:+: s) (offset : Nat) :
    scan offset s = .ok (literal s []) := by
  rw [scan]
  split
  · rfl
  · next hcut => simp [cutAt?_eq_none_iff.mpr h] at hcut

theorem scan_of_unclosed (hopening : FirstAt opening before inner s) (h : ¬ closing <:+: inner)
    (offset : Nat) : scan offset s = .error (.unclosed (offset + byteSize before)) := by
  rw [scan]
  split
  · next hcut => simp [cutAt?_eq_some_iff.mpr hopening] at hcut
  · next hcut =>
    obtain ⟨rfl, rfl⟩ := (cutAt?_eq_some_iff.mp hcut).unique hopening
    split
    · rfl
    · next hcut => simp [cutAt?_eq_none_iff.mpr h] at hcut

/-- One pass of the search, which goes on after a placeholder that is known. -/
theorem scan_next {p : Placeholder} (hopening : FirstAt opening p.before inner s)
    (hclosing : FirstAt closing p.content rest inner) (offset : Nat) :
    let name := Text.trimChars p.content
    scan offset s = if isKnown (pathOf name) then
        (scan (offset + byteSize p.text) rest).map fun more =>
          literal p.before (.field (pathOf name) :: more)
      else .error (.unknownField (String.ofList name)) := by
  intro name
  rw [scan]
  split
  · next hcut => simp [cutAt?_eq_some_iff.mpr hopening] at hcut
  · next hcut =>
    obtain ⟨rfl, rfl⟩ := (cutAt?_eq_some_iff.mp hcut).unique hopening
    split
    · next hcut => simp [cutAt?_eq_some_iff.mpr hclosing] at hcut
    · next hcut =>
      obtain ⟨rfl, rfl⟩ := (cutAt?_eq_some_iff.mp hcut).unique hclosing
      rw [byteSize_text]
      rfl

theorem scan_slot {slot : Slot} (hopening : FirstAt opening slot.before inner s)
    (hclosing : FirstAt closing slot.content rest inner) (offset : Nat) :
    scan offset s = (scan (offset + byteSize slot.text) rest).map fun more =>
      literal slot.before (.field slot.field.path :: more) := by
  have hknown := slot.isKnown_content_iff.mpr ⟨slot.field, slot.names⟩
  rw [scan_next hopening hclosing, if_pos hknown, Field.pathOf_eq_iff.mpr slot.names]

theorem scan_unknown {p : Placeholder} (h : Scanned s [p] rest) (hp : ¬ p.Known) (offset : Nat) :
    scan offset s = .error (.unknownField (String.ofList (Text.trimChars p.content))) := by
  cases h with
  | next hopening hclosing _ =>
    rw [scan_next hopening hclosing, if_neg (mt p.isKnown_content_iff.mp hp)]

/-- The segments for slots, before those for what follows. -/
def segmentsOf (slots : List Slot) (more : List Segment) : List Segment :=
  slots.foldr (fun slot more => literal slot.before (.field slot.field.path :: more)) more

/-- The search goes on after the last of known placeholders, with the place of what is left. -/
theorem scan_of_scanned (h : Scanned s (slots.map Slot.toPlaceholder) tail) (offset : Nat) :
    scan offset s =
      (scan (offset + byteSize (slots.flatMap fun slot => slot.text)) tail).map
        (segmentsOf slots) := by
  induction slots generalizing s offset with
  | nil =>
    cases h
    exact (id_map (scan offset tail)).symm
  | cons slot slots ih =>
    cases h with
    | next hopening hclosing h =>
      rw [scan_slot hopening hclosing, ih h, List.flatMap_cons, byteSize_append, ← Nat.add_assoc]
      cases scan (offset + byteSize slot.text + _) tail <;> rfl

/-- A search that succeeds has met known placeholders only, and succeeds from there. -/
theorem scan_ok {ps : List Placeholder} (h : Scanned s ps tail) {offset : Nat}
    {segments : List Segment} (hok : scan offset s = .ok segments) :
    (∀ p ∈ ps, p.Known) ∧ ∃ place more, scan place tail = .ok more := by
  induction h generalizing offset segments with
  | start s => exact ⟨by simp, offset, segments, hok⟩
  | @next s inner rest tail p ps hopening hclosing _ ih =>
    rw [scan_next hopening hclosing] at hok
    split at hok
    · next hknown =>
      cases hrest : scan (offset + byteSize p.text) rest with
      | error e => simp [hrest, Except.map] at hok
      | ok more =>
        obtain ⟨hps, htail⟩ := ih hrest
        exact ⟨List.forall_mem_cons.mpr ⟨p.isKnown_content_iff.mp hknown, hps⟩, htail⟩
    · cases hok

end Scan

section Parse
variable {source : String} {t : Template} {tail before after : List Char} {slots : List Slot}

theorem parse_of_clear (h : Scanned source.toList (slots.map Slot.toPlaceholder) tail)
    (hclear : ¬ opening <:+: tail) :
    parse source = .ok ⟨segmentsOf slots (literal tail [])⟩ := by
  rw [parse, scan_of_scanned h, scan_of_clear hclear]
  rfl

theorem parse_of_unclosed (h : Scanned source.toList (slots.map Slot.toPlaceholder) tail)
    (hopening : FirstAt opening before after tail) (hclosing : ¬ closing <:+: after) :
    parse source =
      .error (.unclosed (byteSize ((slots.flatMap fun slot => slot.text) ++ before))) := by
  rw [parse, scan_of_scanned h, scan_of_unclosed hopening hclosing, Nat.zero_add,
    ← byteSize_append]
  rfl

theorem parse_of_unknown {p : Placeholder}
    (h : Scanned source.toList (slots.map Slot.toPlaceholder) tail) {rest : List Char}
    (hp : Scanned tail [p] rest) (hunknown : ¬ p.Known) :
    parse source = .error (.unknownField (String.ofList (Text.trimChars p.content))) := by
  rw [parse, scan_of_scanned h, scan_unknown hp hunknown]
  rfl

/-- No slot is left where the search ends. -/
theorem exists_last_slot (s : List Char) : ∃ (slots : List Slot) (tail : List Char),
    Scanned s (slots.map Slot.toPlaceholder) tail ∧
      ∀ p rest, Scanned tail [p] rest → ¬ p.Known := by
  induction hn : s.length using Nat.strong_induction_on generalizing s with
  | _ n ih =>
    by_cases hnext : ∃ p rest, Scanned s [p] rest ∧ p.Known
    · obtain ⟨p, rest, hp, f, hf⟩ := hnext
      have hless : rest.length < n := by
        rw [← hn, hp.source_eq]
        simp [Placeholder.text, Placeholder.span, opening]
        omega
      obtain ⟨slots, tail, hrest, hlast⟩ := ih rest.length hless rest rfl
      exact ⟨⟨p, f, hf⟩ :: slots, tail, hp.trans hrest, hlast⟩
    · simp only [not_exists, not_and] at hnext
      exact ⟨[], s, .start s, hnext⟩

/-- The search ends where no opening is left, or at a placeholder that is not closed or not
known. -/
theorem parse_cases (source : String) : ∃ (slots : List Slot) (tail : List Char),
    Scanned source.toList (slots.map Slot.toPlaceholder) tail ∧
      (¬ opening <:+: tail ∧ parse source = .ok ⟨segmentsOf slots (literal tail [])⟩ ∨
        (∃ before after, FirstAt opening before after tail ∧ ¬ closing <:+: after ∧
          parse source =
            .error (.unclosed (byteSize ((slots.flatMap fun slot => slot.text) ++ before)))) ∨
        ∃ p rest, Scanned tail [p] rest ∧ ¬ p.Known ∧
          parse source = .error (.unknownField (String.ofList (Text.trimChars p.content)))) := by
  obtain ⟨slots, tail, h, hlast⟩ := exists_last_slot source.toList
  refine ⟨slots, tail, h, ?_⟩
  by_cases hclear : opening <:+: tail
  · right
    obtain ⟨before, after, hopening⟩ := Text.exists_firstAt hclear
    by_cases hclosed : closing <:+: after
    · right
      obtain ⟨content, rest, hclosing⟩ := Text.exists_firstAt hclosed
      have hp : Scanned tail [⟨before, content⟩] rest := .next hopening hclosing (.start rest)
      exact ⟨_, rest, hp, hlast _ _ hp, parse_of_unknown h hp (hlast _ _ hp)⟩
    · left
      exact ⟨before, after, hopening, hclosed, parse_of_unclosed h hopening hclosed⟩
  · left
    exact ⟨hclear, parse_of_clear h hclear⟩

/-- A template has the slots of its source. -/
theorem slots_of_parse (h : parse source = .ok t) : ∃ (slots : List Slot) (tail : List Char),
    Scanned source.toList (slots.map Slot.toPlaceholder) tail ∧ ¬ opening <:+: tail ∧
      t = ⟨segmentsOf slots (literal tail [])⟩ := by
  obtain ⟨slots, tail, hslots, hends⟩ := parse_cases source
  rw [h] at hends
  rcases hends with ⟨hclear, hok⟩ | ⟨_, _, _, _, herror⟩ | ⟨_, _, _, _, herror⟩
  · exact ⟨slots, tail, hslots, hclear, Except.ok.inj hok⟩
  · simp at herror
  · simp at herror

/-- Every opening that is found is closed, and its content is known. -/
def WellFormed (s : List Char) : Prop :=
  ∀ ps tail, Scanned s ps tail → (∀ p ∈ ps, p.Known) ∧
    ∀ before after, FirstAt opening before after tail → closing <:+: after

/-- The first fault of a source: all placeholders before it are known. -/
inductive Blamed (s : List Char) : Fault → Prop where
  | unclosed {ps : List Placeholder} {tail before after left : List Char} (h : Scanned s ps tail)
      (hknown : ∀ p ∈ ps, p.Known) (hopening : FirstAt opening before after tail)
      (hclosing : ¬ closing <:+: after) (hplace : s = left ++ opening ++ after) :
      Blamed s (.unclosed (String.ofList left).utf8ByteSize)
  | unknownField {ps : List Placeholder} {p : Placeholder} {rest : List Char}
      (h : Scanned s (ps ++ [p]) rest) (hknown : ∀ p ∈ ps, p.Known) (hp : ¬ p.Known) :
      Blamed s (.unknownField (Text.trim (String.ofList p.content)))

theorem parse_eq_error_iff {fault : Fault} :
    parse source = .error fault ↔ Blamed source.toList fault := by
  constructor
  · intro hfault
    obtain ⟨slots, tail, h, hends⟩ := parse_cases source
    rw [hfault] at hends
    rcases hends with ⟨-, hok⟩ | ⟨before, after, hopening, hclosing, herror⟩ |
      ⟨p, rest, hp, hunknown, herror⟩
    · cases hok
    · cases herror
      rw [byteSize_eq]
      refine .unclosed h Slot.known hopening hclosing ?_
      rw [h.source_eq, hopening.1]
      simp [List.flatMap_map]
    · cases herror
      have htrim : String.ofList (Text.trimChars p.content) =
          Text.trim (String.ofList p.content) := by simp [Text.trim]
      rw [htrim]
      exact .unknownField (h.trans hp) Slot.known hunknown
  · rintro (⟨h, hknown, hopening, hclosing, hplace⟩ | ⟨h, hknown, hp⟩)
    · obtain ⟨slots, rfl⟩ := exists_slots hknown
      rw [h.source_eq, hopening.1, ← List.append_assoc, ← List.append_assoc] at hplace
      have hleft := List.append_cancel_right (List.append_cancel_right hplace)
      rw [parse_of_unclosed h hopening hclosing, ← byteSize_eq, ← hleft, List.flatMap_map]
    · obtain ⟨slots, rfl⟩ := exists_slots hknown
      obtain ⟨mid, hslots, hlast⟩ := h.split
      rw [parse_of_unknown hslots hlast hp]
      simp [Text.trim]

theorem parse_eq_ok_iff : (∃ t, parse source = .ok t) ↔ WellFormed source.toList := by
  constructor
  · rintro ⟨t, ht⟩ ps tail h
    cases hscan : scan 0 source.toList with
    | error e => simp [parse, hscan, Except.map] at ht
    | ok segments =>
      obtain ⟨hknown, place, more, hmore⟩ := scan_ok h hscan
      refine ⟨hknown, fun before after hopening => ?_⟩
      by_contra hclosing
      simp [scan_of_unclosed hopening hclosing] at hmore
  · intro hwell
    obtain ⟨slots, tail, h, hends⟩ := parse_cases source
    rcases hends with ⟨-, hok⟩ | ⟨before, after, hopening, hclosing, -⟩ |
      ⟨p, rest, hp, hunknown, -⟩
    · exact ⟨_, hok⟩
    · exact absurd ((hwell _ _ h).2 before after hopening) hclosing
    · exact absurd ((hwell _ _ (h.trans hp)).1 p (by simp)) hunknown

/-- What a segment stands for in a source: a text as it is, and a field for its placeholder. -/
inductive Segment.Stands : Segment → List Char → Prop where
  | literal {s : List Char} (hs : s ≠ []) (hclear : ¬ opening <:+: s) : Stands (.literal s) s
  | field (slot : Slot) : Stands (.field slot.field.path) slot.span

theorem stands_literal {s : List Char} (h : ¬ opening <:+: s) {more : List Segment}
    {parts : List (List Char)} (hmore : List.Forall₂ Segment.Stands more parts) :
    ∃ all, List.Forall₂ Segment.Stands (literal s more) all ∧ all.flatten = s ++ parts.flatten := by
  cases s with
  | nil => exact ⟨parts, hmore, rfl⟩
  | cons c s => exact ⟨(c :: s) :: parts, .cons (.literal (by simp) h) hmore, rfl⟩

theorem stands_segmentsOf {s : List Char} (h : Scanned s (slots.map Slot.toPlaceholder) tail)
    (hclear : ¬ opening <:+: tail) : ∃ parts,
      List.Forall₂ Segment.Stands (segmentsOf slots (literal tail [])) parts ∧
        parts.flatten = s := by
  induction slots generalizing s with
  | nil =>
    cases h
    simpa [segmentsOf] using stands_literal hclear .nil
  | cons slot slots ih =>
    cases h with
    | next hopening hclosing h =>
      obtain ⟨parts, hparts, hrest⟩ := ih h
      obtain ⟨all, hall, hflatten⟩ :=
        stands_literal (hopening.before_clear (by simp [opening])) (.cons (.field slot) hparts)
      refine ⟨all, hall, ?_⟩
      rw [hflatten, Placeholder.eq_text_append hopening hclosing]
      simp [hrest, Placeholder.text]

/-- Of two segments side by side one is a field. -/
def Segment.Apart (a b : Segment) : Prop := ∀ s t, a = .literal s → b ≠ .literal t

theorem apart_literal {s : List Char} {path : List String} {more : List Segment}
    (h : more.IsChain Segment.Apart) :
    (literal s (.field path :: more)).IsChain Segment.Apart := by
  have hfield : (Segment.field path :: more).IsChain Segment.Apart := by
    simp [List.isChain_cons, h, Segment.Apart]
  cases s with
  | nil => exact hfield
  | cons c s => simp [literal, List.isChain_cons_cons, hfield, Segment.Apart]

theorem apart_segmentsOf (slots : List Slot) (tail : List Char) :
    (segmentsOf slots (literal tail [])).IsChain Segment.Apart := by
  induction slots with
  | nil => cases tail <;> simp [segmentsOf, literal]
  | cons slot slots ih => exact apart_literal ih

/-- Every pass takes its braces from the source. -/
theorem Scanned.size_le {s : List Char} {ps : List Placeholder} (h : Scanned s ps tail) :
    4 * ps.length + byteSize tail ≤ byteSize s := by
  induction h with
  | start s => simp
  | @next s inner rest tail p ps hopening hclosing _ ih =>
    rw [Placeholder.eq_text_append hopening hclosing, byteSize_append, byteSize_text,
      List.length_cons]
    omega

/-- A source is a template exactly if every opening in it is closed and holds a known field. Of all
others the first fault is told: an unclosed opening by its place, or what is no field by its
name. The segments of a template stand for the source part by part. The search takes four bytes at
least in every pass. -/
theorem parse_exact (source : String) :
    ((∃ t, parse source = .ok t) ↔ WellFormed source.toList) ∧
      (∀ fault, parse source = .error fault ↔ Blamed source.toList fault) ∧
      (∀ t, parse source = .ok t →
        (∃ parts, List.Forall₂ Segment.Stands t.segments parts ∧ parts.flatten = source.toList) ∧
          t.segments.IsChain Segment.Apart) ∧
      ∀ ps tail, Scanned source.toList ps tail →
        4 * ps.length + (String.ofList tail).utf8ByteSize ≤ source.utf8ByteSize := by
  refine ⟨parse_eq_ok_iff, fun _ => parse_eq_error_iff, fun t ht => ?_, fun ps tail h => ?_⟩
  · obtain ⟨slots, tail, h, hclear, rfl⟩ := slots_of_parse ht
    exact ⟨stands_segmentsOf h hclear, apart_segmentsOf slots tail⟩
  · simpa [byteSize_eq] using h.size_le

/-- An opening without a closing, past a placeholder and a character of two bytes. -/
theorem parse_exact_unclosed :
    let source := "\u00e9\x7b\x7b hostname \x7d\x7d\x7d\x7b\x7b image_tag"
    Blamed source.toList (.unclosed 17) ∧ parse source = .error (.unclosed 17) := by
  intro source
  let p : Placeholder := ⟨['\u00e9'], " hostname ".toList⟩
  let tail := "\x7d\x7b\x7b image_tag".toList
  have hp : FirstAt opening p.before (p.content ++ closing ++ tail) source.toList :=
    cutAt?_eq_some_iff.mp (by decide +kernel)
  have hclosed : FirstAt closing p.content tail (p.content ++ closing ++ tail) :=
    cutAt?_eq_some_iff.mp (by decide +kernel)
  have hknown : p.Known := ⟨.hostname, rfl⟩
  have hopening : FirstAt opening ['\x7d'] " image_tag".toList tail :=
    cutAt?_eq_some_iff.mp (by decide +kernel)
  have hclosing : ¬ closing <:+: " image_tag".toList := by decide
  have hplace : source.toList = p.text ++ ['\x7d'] ++ opening ++ " image_tag".toList := by
    decide +kernel
  have hblamed : Blamed source.toList (.unclosed 17) :=
    .unclosed (.next hp hclosed (.start tail)) (by simpa using hknown) hopening hclosing hplace
  exact ⟨hblamed, ((parse_exact source).2.1 _).mpr hblamed⟩

end Parse

end FleetBoot.Template
