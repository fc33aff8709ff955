/-
# TokenLayout.Proofs.Settings.Sections -- documents of texts in tables

The plainest documents hold tables with texts in them and nothing else.  Such a document
is proper where no key is written twice.  It is literal where its tables have plain keys and
no text is under the key that is kept for dates and times.
-/
import TokenLayout.Proofs.Settings.Files

namespace TokenLayout.Settings

set_option autoImplicit false

/-- Tables that hold nothing but texts. -/
abbrev Sections := List (String × List (String × String))

namespace Sections

/-- A table of texts. -/
def table (words : List (String × String)) : Toml.Value :=
  .table (words.map fun e => (e.1, .text e.2))

/-- The document that they make up. -/
def document (sections : Sections) : Document :=
  sections.map fun e => (e.1, table e.2)

/-- The text that a value is, if it is one. -/
def text? : Toml.Value → Option String
  | .text s => some s
  | _ => none

/-- The tables of a document with the texts in them. -/
def texts (doc : Document) : List (String × List (String × Option String)) :=
  doc.map fun e => (e.1, e.2.entries.map fun e => (e.1, text? e.2))

/-- Entries that are told by their texts. -/
theorem eq_map_text {words : List (String × String)} {es : Document}
    (same : (es.map fun e => (e.1, text? e.2)) = words.map fun e => (e.1, some e.2)) :
    es = words.map fun e => (e.1, .text e.2) := by
  induction words generalizing es with
  | nil => exact List.map_eq_nil_iff.1 same
  | cons w words ih =>
      obtain ⟨⟨key, v⟩, rest, rfl, here, behind⟩ := List.map_eq_cons_iff.1 same
      obtain ⟨rfl, text⟩ := Prod.mk.inj here
      cases v with
      | text s => rw [List.map_cons, ← ih behind, ← Option.some.inj text]
      | _ => cases text

/-- A document is told by its texts where it holds nothing else. -/
theorem eq_document_of_texts {sections : Sections} (filled : ∀ e ∈ sections, e.2 ≠ [])
    {doc : Document} (same : texts doc =
      sections.map fun e => (e.1, e.2.map fun e => (e.1, some e.2))) :
    doc = sections.document := by
  induction sections generalizing doc with
  | nil => exact List.map_eq_nil_iff.1 same
  | cons s sections ih =>
      obtain ⟨⟨key, v⟩, rest, rfl, here, behind⟩ := List.map_eq_cons_iff.1 same
      obtain ⟨rfl, words⟩ := Prod.mk.inj here
      have entries := eq_map_text words
      have isTable : v = .table v.entries := by
        cases v with
        | table es => rfl
        | _ => exact absurd (List.map_eq_nil_iff.1 entries.symm) (filled s (.head _))
      rw [ih (fun e member => filled e (.tail s member)) behind, isTable, entries]
      rfl

/-- A file that holds nothing else. -/
theorem document?_eq {required : Bool} {text : String} {sections : Sections}
    (filled : ∀ e ∈ sections, e.2 ≠ []) (same : (Toml.read text).map texts =
      some (sections.map fun e => (e.1, e.2.map fun e => (e.1, some e.2)))) :
    (⟨required, some text⟩ : File).document? = some sections.document := by
  obtain ⟨doc, read, same⟩ := Option.map_eq_some_iff.1 same
  rw [← eq_document_of_texts filled same]
  exact read

theorem written?_document (sections : Sections) (leaf : Leaf) : sections.document.written? leaf =
    ((caseless? leaf.group sections).bind (caseless? leaf.key)).map .text := by
  rw [Document.written?, document, caseless?_map]
  cases caseless? leaf.group sections with
  | none => rfl
  | some words => exact caseless?_map Toml.Value.text leaf.key words

/-- What such a file has written for a setting is a text in the table of its group. -/
theorem written?_file {f : File} {sections : Sections}
    (holds : f.document? = some sections.document) (leaf : Leaf) : f.written? leaf =
      ((caseless? leaf.group sections).bind (caseless? leaf.key)).map .text := by
  rw [File.written?, holds, Option.bind_some, written?_document, Option.map_map]
  rfl

theorem proper_document {sections : Sections} (once : (sections.map (·.1.toLower)).Nodup)
    (within : ∀ e ∈ sections, (e.2.map (·.1.toLower)).Nodup) : sections.document.Proper where
  once := by simpa [document, Function.comp_def] using once
  groups := by
    intro leaf group there
    rw [document, caseless?_map] at there
    obtain ⟨words, found, rfl⟩ := Option.map_eq_some_iff.1 there
    obtain ⟨e, member, rfl⟩ := Option.map_eq_some_iff.1 found
    exact ⟨_, rfl, by simpa [Function.comp_def] using within e (List.mem_of_find?_eq_some member)⟩
  leaves := by
    intro leaf v written es table
    rw [written?_document] at written
    obtain ⟨word, -, rfl⟩ := Option.map_eq_some_iff.1 written
    cases table

theorem literal_document {sections : Sections}
    (keys : ∀ e ∈ sections, e.1.toLower.toList.all KeyPath.isKeyChar = true)
    (free : ∀ e ∈ sections, ∀ e' ∈ e.2, e'.1 ≠ momentKey) : sections.document.Literal := by
  have whole : ¬Document.Reserved sections.document := by
    rintro ⟨v, rest, first⟩
    obtain ⟨e, others, rfl, here, behind⟩ := List.map_eq_cons_iff.1 first
    have chars := keys e (.head _)
    rw [(Prod.mk.inj here).1] at chars
    exact absurd (List.all_eq_true.1 chars '$' (by decide_cbv)) (by decide)
  have table : ∀ e ∈ sections, ¬Document.Reserved (e.2.map fun e => (e.1, .text e.2)) := by
    rintro e member ⟨v, rest, first⟩
    obtain ⟨e', words, split, here, -⟩ := List.map_eq_cons_iff.1 first
    exact free e member e' (split ▸ .head _) (Prod.mk.inj here).1
  refine ⟨fun w rest within => ?_, whole, fun leaf es there => ?_, fun leaf e member => ?_⟩
  · obtain same | ⟨e, member, within⟩ := within.of_table
    · exact absurd ⟨w, rest, (Toml.Value.table.inj same).symm⟩ whole
    · obtain ⟨e, there, rfl⟩ := List.mem_map.1 member
      obtain same | ⟨e', member, within⟩ := within.of_table
      · exact absurd ⟨w, rest, (Toml.Value.table.inj same).symm⟩ (table e there)
      · obtain ⟨e', -, rfl⟩ := List.mem_map.1 member
        cases within
  · rw [document, caseless?_map] at there
    obtain ⟨words, found, same⟩ := Option.map_eq_some_iff.1 there
    obtain ⟨e, member, rfl⟩ := Option.map_eq_some_iff.1 found
    exact Toml.Value.table.inj same ▸ table e (List.mem_of_find?_eq_some member)
  · obtain ⟨e', there, rfl⟩ := List.mem_map.1 member
    exact not_leadsOn (List.all_eq_true.1 (keys e' there))

end Sections

end TokenLayout.Settings
