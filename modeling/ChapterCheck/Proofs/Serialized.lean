/-
# ChapterCheck.Proofs.Serialized -- a report is known from its document

A document of a report has the version, and for each defect its kind, its written path and its
message. If the names on the paths are plain, this is all that there is to know of the report
(`Report.Document.unique`). So is the text of the document, for there are no numbers in it
(`Report.document_determines`).

Nothing is asked of the order in which an object has its members: `Report.json` is one of several
documents of a report.
-/
import Mathlib.Data.List.Forall2
import ChapterCheck.Proofs.Distinct
import ChapterCheck.Proofs.Layouts
import ChapterCheck.Validator

namespace ChapterCheck

open Json

/-! ## Documents of a diagnostic -/

/-- A **`Document`** of a diagnostic -- an object whose members are its kind, its written path and
its message, in any order. -/
def Diagnostic.Document (d : Diagnostic) (v : Value) : Prop :=
  ∃ members : Members, v = .object members ∧ members.Perm
    [("kind", .string (Tagged.tag d.kind)), ("path", .string d.path.render),
      ("message", .string d.message)]

theorem Diagnostic.document_json (d : Diagnostic) : d.Document d.json :=
  ⟨_, rfl, .cons _ (.swap _ _ _)⟩

namespace Diagnostic.Document

variable {d e : Diagnostic} {v : Value}

theorem numberless (h : d.Document v) : v.Numberless := by
  obtain ⟨members, rfl, hmembers⟩ := h
  refine .object fun m hm => ?_
  have hm := hmembers.subset hm
  simp only [List.mem_cons, List.not_mem_nil, or_false] at hm
  rcases hm with rfl | rfl | rfl <;> exact .string _

/-- A document is of one diagnostic with a plain path. -/
theorem unique (hd : d.Document v) (he : e.Document v) (hp : d.path.Plain) (hq : e.path.Plain) :
    d = e := by
  obtain ⟨members, rfl, hmembers⟩ := hd
  obtain ⟨others, heq, hothers⟩ := he
  obtain rfl := Value.object.inj heq
  have hsub := (hmembers.symm.trans hothers).subset
  simp only [List.cons_subset, List.mem_cons, List.not_mem_nil, Prod.mk.injEq, String.reduceEq,
    Value.string.injEq, false_and, true_and, or_false, false_or] at hsub
  obtain ⟨hkind, hpath, hmessage, -⟩ := hsub
  obtain ⟨kind, path, message⟩ := d
  obtain ⟨kind', path', message'⟩ := e
  obtain rfl := Tagged.distinct kind kind' hkind
  obtain rfl := Path.render_injective hp hq hpath
  obtain rfl : message = message' := hmessage
  rfl

end Diagnostic.Document

theorem Diagnostic.numberless_of_forall₂ {errors : List Diagnostic} {documents : List Value}
    (h : List.Forall₂ Document errors documents) : ∀ v ∈ documents, v.Numberless := by
  induction h with
  | nil => nofun
  | cons hd _ ih => exact List.forall_mem_cons.mpr ⟨hd.numberless, ih⟩

/-! ## Documents of a report -/

namespace Report

/-- A **`Document`** of a report -- an object whose members are the version and a list of documents
of the diagnostics, in any order. -/
def Document (r : Report) (v : Value) : Prop :=
  ∃ (documents : List Value) (members : Members), v = .object members
    ∧ List.Forall₂ Diagnostic.Document r.errors documents
    ∧ members.Perm [("schema_version", .string r.schemaVersion), ("errors", .array documents)]

/-- A report is **`Plain`** if the paths of its diagnostics are. -/
def Plain (r : Report) : Prop :=
  ∀ d ∈ r.errors, d.path.Plain

variable {r s : Report} {v w : Value}

theorem document_json (r : Report) : r.Document r.json := by
  refine ⟨r.errors.map Diagnostic.json, _, rfl, ?_, .refl _⟩
  rw [List.forall₂_map_right_iff]
  exact List.forall₂_same.mpr fun d _ => d.document_json

theorem Document.numberless (h : r.Document v) : v.Numberless := by
  obtain ⟨documents, members, rfl, hdocuments, hmembers⟩ := h
  refine .object fun m hm => ?_
  have hm := hmembers.subset hm
  simp only [List.mem_cons, List.not_mem_nil, or_false] at hm
  rcases hm with rfl | rfl
  · exact .string _
  · exact .array (Diagnostic.numberless_of_forall₂ hdocuments)

/-- A document is of one plain report. -/
theorem Document.unique (hr : r.Document v) (hs : s.Document v) (hplain : r.Plain)
    (hplain' : s.Plain) : r = s := by
  obtain ⟨documents, members, rfl, hdocuments, hmembers⟩ := hr
  obtain ⟨documents', others, heq, hdocuments', hothers⟩ := hs
  obtain rfl := Value.object.inj heq
  have hsub := (hmembers.symm.trans hothers).subset
  simp only [List.cons_subset, List.mem_cons, List.not_mem_nil, Prod.mk.injEq, String.reduceEq,
    Value.string.injEq, Value.array.injEq, false_and, true_and, or_false, false_or] at hsub
  obtain ⟨hversion, rfl, -⟩ := hsub
  have hunique : Relator.LeftUnique fun (d : Diagnostic) v => d.path.Plain ∧ d.Document v :=
    fun _ _ _ hd he => hd.2.unique he.2 hd.1 he.1
  have herrors : r.errors = s.errors := List.left_unique_forall₂' hunique
    ((List.forall₂_and_left _ _).mpr ⟨hplain, hdocuments⟩)
    ((List.forall₂_and_left _ _).mpr ⟨hplain', hdocuments'⟩)
  obtain ⟨version, errors⟩ := r
  obtain ⟨version', errors'⟩ := s
  obtain rfl : version = version' := hversion
  obtain rfl : errors = errors' := herrors
  rfl

/-- All names on the paths of a validator are plain. -/
theorem plain_report (validator : Validator) (v : Value) : (validator.report v).Plain :=
  fun _ hd => (Chapter.named_of_mem_diagnostics hd).plain

/-- **`document_determines`** -- paths whose names are plain are the same if they are written the
same. Reports on such paths are the same if they have a document in common, or documents with the
same text in one of the layouts; the reports of a validator are on such paths. -/
theorem document_determines :
    (∀ p q : Path, p.Plain → q.Plain → p.render = q.render → p = q)
    ∧ (∀ (r s : Report) (v w : Value), r.Plain → s.Plain → r.Document v → s.Document w →
      v = w ∨ v.compact = w.compact ∨ v.pretty = w.pretty → r = s)
    ∧ (∀ r : Report, r.Document r.json)
    ∧ ∀ (validator : Validator) (v : Value), (validator.report v).Plain := by
  refine ⟨fun p q => Path.render_injective, ?_, document_json, plain_report⟩
  intro r s v w hr hs hv hw h
  have heq : v = w := by
    rcases h with h | h | h
    · exact h
    · exact Value.compact_injective hv.numberless hw.numberless h
    · exact Value.pretty_injective hv.numberless hw.numberless h
  subst heq
  exact hv.unique hw hr hs

/-- A chapter with a list of one item, in which `null` stands for a block. -/
def nullItem : Value :=
  .object
    [("anchor", .string "a"),
     ("blocks", .array
       [.object
         [("items", .array [.array [.null]]), ("listType", .string "task"),
          ("type", .string "list")]]),
     ("chapterId", .string "c"), ("order", .number (.integer 1)), ("title", .string "t")]

/-- What is found in it. -/
def nullItemReport : Report where
  schemaVersion := "1.0"
  errors :=
    [⟨.wrongShape, [.field "blocks", .index 0, .field "items", .index 0, .index 0],
      "blocks[0].items[0][0] must be an object"⟩]

/-- A report that is known from its text, and places in a row that are told from one place. Names
with a mark in them would not be told apart. -/
theorem document_determines_nullItem :
    Validator.standard.report nullItem = nullItemReport
    ∧ Path.render [.index 1, .index 2] ≠ Path.render [.index 12]
    ∧ Path.render [.field "a", .field "b"] = Path.render [.field "a.b"] := by
  obtain ⟨hpaths, hreports, hjson, hplain⟩ := document_determines
  refine ⟨?_, ?_, by decide⟩
  · have hwritten : nullItemReport.Plain := by
      simp [nullItemReport, Report.Plain, Path.Plain]
    have htext : (Validator.standard.report nullItem).json.compact
        = nullItemReport.json.compact := by decide +kernel
    exact hreports _ _ _ _ (hplain _ _) hwritten (hjson _) (hjson _) (.inr (.inl htext))
  · have hplaces (places : List Nat) : Path.Plain (places.map .index) := by
      simp [Path.Plain]
    intro heq
    have hsame := hpaths _ _ (hplaces [1, 2]) (hplaces [12]) heq
    exact absurd hsame (by decide)

end Report

end ChapterCheck
