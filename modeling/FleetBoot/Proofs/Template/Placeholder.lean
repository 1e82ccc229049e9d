import FleetBoot.Proofs.Text.Search
import FleetBoot.Template.Basic
import Mathlib

/-! Placeholders as they stand in a source, found from left to right, and the parts of a boot
configuration that they can name. -/
namespace FleetBoot.Template

inductive Scheme where
  | https
  | http
  deriving DecidableEq

inductive Asset where
  | initrd
  | kernel
  | rootfs
  | file
  deriving DecidableEq

/-- The parts of a boot configuration that a script can hold. -/
inductive Field where
  | name
  | bucket
  | tag
  | type
  | cmdline
  | hostname
  | url (asset : Asset) (scheme : Scheme)
  deriving DecidableEq

def Scheme.name : Scheme → String
  | .https => "https"
  | .http => "http"

def Scheme.of (u : SignedUrl) : Scheme → String
  | .https => u.https
  | .http => u.http

def Asset.name : Asset → String
  | .initrd => "initrd_url"
  | .kernel => "kernel_url"
  | .rootfs => "rootfs_url"
  | .file => "image_url"

def Asset.url? (c : BootConfig) : Asset → Option SignedUrl
  | .initrd => some c.initrd
  | .kernel => some c.kernel
  | .rootfs => some c.rootfs
  | .file => c.file

namespace Field

def path : Field → List String
  | .name => ["image_name"]
  | .bucket => ["image_bucket"]
  | .tag => ["image_tag"]
  | .type => ["image_type"]
  | .cmdline => ["image_cmdline"]
  | .hostname => ["hostname"]
  | .url asset scheme => [asset.name, scheme.name]

/-- The field in a placeholder. -/
def text : Field → String
  | .name => "image_name"
  | .bucket => "image_bucket"
  | .tag => "image_tag"
  | .type => "image_type"
  | .cmdline => "image_cmdline"
  | .hostname => "hostname"
  | .url asset scheme => asset.name ++ "." ++ scheme.name

/-- The field in a configuration, which may have no file. -/
def value? (c : BootConfig) : Field → Option String
  | .name => some c.name
  | .bucket => some c.bucket
  | .tag => some c.tag
  | .type => some c.type
  | .cmdline => some c.cmdline
  | .hostname => some c.hostname
  | .url asset scheme => (asset.url? c).map (Scheme.of · scheme)

theorem value?_eq_none_iff {c : BootConfig} {f : Field} :
    f.value? c = none ↔ c.file = none ∧ ∃ scheme, f = .url .file scheme := by
  cases f with
  | url asset scheme => cases asset <;> simp [value?, Asset.url?]
  | _ => simp [value?]

theorem pathOf_text (f : Field) : pathOf f.text.toList = f.path := by
  cases f with
  | url asset scheme => cases asset <;> cases scheme <;> rfl
  | _ => rfl

theorem intercalate_path (f : Field) :
    ['.'].intercalate (f.path.map String.toList) = f.text.toList := by
  cases f with
  | url asset scheme => simp [path, text, List.intercalate_cons_cons]
  | _ => rfl

theorem pathOf_eq_iff {f : Field} {s : List Char} : pathOf s = f.path ↔ s = f.text.toList := by
  constructor
  · intro h
    have hpieces : f.path.map String.toList = Text.splitChar '.' s := by
      simp [← h, pathOf, Function.comp_def]
    rw [← f.intercalate_path, hpieces, Text.intercalate_splitChar]
  · rintro rfl
    exact f.pathOf_text

end Field

theorem mem_schemeNames_iff {name : String} :
    name ∈ schemeNames ↔ ∃ scheme : Scheme, name = scheme.name := by
  constructor
  · intro h
    simp only [schemeNames, List.mem_cons, List.not_mem_nil, or_false] at h
    rcases h with rfl | rfl
    · exact ⟨.https, rfl⟩
    · exact ⟨.http, rfl⟩
  · rintro ⟨scheme, rfl⟩
    cases scheme <;> simp [schemeNames, Scheme.name]

theorem mem_urlNames_iff {name : String} :
    name ∈ urlNames ↔ ∃ asset : Asset, name = asset.name := by
  constructor
  · intro h
    simp only [urlNames, List.mem_cons, List.not_mem_nil, or_false] at h
    rcases h with rfl | rfl | rfl | rfl
    · exact ⟨.initrd, rfl⟩
    · exact ⟨.kernel, rfl⟩
    · exact ⟨.rootfs, rfl⟩
    · exact ⟨.file, rfl⟩
  · rintro ⟨asset, rfl⟩
    cases asset <;> simp [urlNames, Asset.name]

theorem mem_textNames_iff {name : String} :
    name ∈ textNames ↔ ∃ f : Field, [name] = f.path := by
  constructor
  · intro h
    simp only [textNames, List.mem_cons, List.not_mem_nil, or_false] at h
    rcases h with rfl | rfl | rfl | rfl | rfl | rfl
    · exact ⟨.name, rfl⟩
    · exact ⟨.bucket, rfl⟩
    · exact ⟨.tag, rfl⟩
    · exact ⟨.type, rfl⟩
    · exact ⟨.cmdline, rfl⟩
    · exact ⟨.hostname, rfl⟩
  · rintro ⟨f, hf⟩
    cases f <;> simp_all [Field.path, textNames]

theorem isKnown_iff {path : List String} : isKnown path = true ↔ ∃ f : Field, path = f.path := by
  match path with
  | [name] => simp [isKnown, mem_textNames_iff]
  | [name, scheme] =>
    simp only [isKnown, Bool.and_eq_true, List.contains_iff_mem, mem_urlNames_iff,
      mem_schemeNames_iff]
    constructor
    · rintro ⟨⟨asset, rfl⟩, scheme, rfl⟩
      exact ⟨.url asset scheme, rfl⟩
    · rintro ⟨f, hf⟩
      cases f with
      | url asset scheme =>
        simp only [Field.path, List.cons.injEq, and_true] at hf
        exact ⟨⟨asset, hf.1⟩, scheme, hf.2⟩
      | _ => simp [Field.path] at hf
  | [] | _ :: _ :: _ :: _ =>
    simp only [isKnown, Bool.false_eq_true, false_iff, not_exists]
    intro f
    cases f <;> simp [Field.path]

/-- A pair of braces in a source: the text before it, since the last pair, and its content. -/
structure Placeholder where
  before : List Char
  content : List Char

namespace Placeholder

/-- The placeholder as it is written. -/
def span (p : Placeholder) : List Char := opening ++ p.content ++ closing

/-- The part of the source that ends with the placeholder. -/
def text (p : Placeholder) : List Char := p.before ++ p.span

/-- The content is the field, with blanks around it or without. -/
def Names (p : Placeholder) (f : Field) : Prop := Text.trimChars p.content = f.text.toList

def Known (p : Placeholder) : Prop := ∃ f, p.Names f

theorem eq_text_append {p : Placeholder} {s inner rest : List Char}
    (hopening : Text.FirstAt opening p.before inner s)
    (hclosing : Text.FirstAt closing p.content rest inner) : s = p.text ++ rest := by
  rw [hopening.1, hclosing.1]
  simp [text, span]

theorem isKnown_content_iff (p : Placeholder) :
    isKnown (pathOf (Text.trimChars p.content)) = true ↔ p.Known := by
  simp only [isKnown_iff, Known, Names, Field.pathOf_eq_iff]

end Placeholder

/-- A placeholder that names a field. -/
structure Slot extends Placeholder where
  field : Field
  names : toPlaceholder.Names field

theorem exists_slots {ps : List Placeholder} (h : ∀ p ∈ ps, p.Known) :
    ∃ slots : List Slot, slots.map Slot.toPlaceholder = ps := by
  induction ps with
  | nil => exact ⟨[], rfl⟩
  | cons p ps ih =>
    obtain ⟨⟨f, hf⟩, hps⟩ := List.forall_mem_cons.mp h
    obtain ⟨slots, rfl⟩ := ih hps
    exact ⟨⟨p, f, hf⟩ :: slots, rfl⟩

theorem Slot.known {slots : List Slot} : ∀ p ∈ slots.map Slot.toPlaceholder, p.Known := by
  simp only [List.forall_mem_map]
  exact fun slot _ => ⟨slot.field, slot.names⟩

/-- These placeholders are found in a text, each at the first opening after the last one and up to
the nearest closing, and this text is left. -/
inductive Scanned : List Char → List Placeholder → List Char → Prop where
  | start (s : List Char) : Scanned s [] s
  | next {s inner rest tail : List Char} {p : Placeholder} {ps : List Placeholder}
      (hopening : Text.FirstAt opening p.before inner s)
      (hclosing : Text.FirstAt closing p.content rest inner) (h : Scanned rest ps tail) :
      Scanned s (p :: ps) tail

namespace Scanned
variable {s t mid tail : List Char} {p : Placeholder} {ps qs : List Placeholder}

/-- Nothing of a source is lost. -/
theorem source_eq (h : Scanned s ps tail) : s = ps.flatMap Placeholder.text ++ tail := by
  induction h with
  | start s => rfl
  | next hopening hclosing _ ih =>
    rw [Placeholder.eq_text_append hopening hclosing, ih, List.flatMap_cons, List.append_assoc]

theorem trans (h : Scanned s ps mid) (h' : Scanned mid qs tail) : Scanned s (ps ++ qs) tail := by
  induction h with
  | start s => exact h'
  | next hopening hclosing _ ih => exact .next hopening hclosing (ih h')

theorem split (h : Scanned s (ps ++ qs) tail) : ∃ mid, Scanned s ps mid ∧ Scanned mid qs tail := by
  induction ps generalizing s with
  | nil => exact ⟨s, .start s, h⟩
  | cons p ps ih =>
    cases h with
    | next hopening hclosing h =>
      obtain ⟨mid, hps, hqs⟩ := ih h
      exact ⟨mid, .next hopening hclosing hps, hqs⟩

/-- Text that follows a source does not change what is found in it. -/
theorem append (h : Scanned s ps tail) (t : List Char) : Scanned (s ++ t) ps (tail ++ t) := by
  induction h with
  | start s => exact .start _
  | next hopening hclosing _ ih => exact .next (hopening.append t) (hclosing.append t) ih

end Scanned

end FleetBoot.Template
