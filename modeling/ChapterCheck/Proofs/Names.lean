/-
# ChapterCheck.Proofs.Names -- the names on the paths of diagnostics

The names on the path of a diagnostic are those of the contracts, whatever the chapter holds besides
(`Founded.named`). They are short words, so what is asked of them is decided one by one.
-/
import ChapterCheck.Proofs.Founded

namespace ChapterCheck

open Json

/-- **`contractNames`** -- the names of the contracts: what stands for the header, and the keys of
the chapter, of its blocks, and of their parts. -/
def contractNames : List String :=
  ["chapter", "chapterId", "title", "anchor", "order", "blocks", "type", "level", "text", "inlines",
    "marks", "listType", "items", "rows", "cells", "engine", "tone", "widgetId", "widgetType",
    "content", "latex", "img", "src"]

/-- A path whose names are those of the contracts. -/
def Path.Named (path : Path) : Prop :=
  ∀ name, .field name ∈ path → name ∈ contractNames

theorem Path.named_append {p q : Path} : Named (p ++ q) ↔ Named p ∧ Named q := by
  simp only [Named, List.mem_append, or_imp, forall_and]

theorem Path.named_field {key : String} : Named [.field key] ↔ key ∈ contractNames := by
  simp [Named]

/-- The names on the way from node to node. -/
theorem Leads.named {role next : Role} {w : Value} {steps : Path} (h : Leads role w steps next) :
    steps.Named := by
  cases h <;> simp [Path.Named] <;> decide

theorem Stands.named {v w : Value} {role : Role} {place : Path} (h : Stands v role place w) :
    place.Named := by
  have hblocks (i : Nat) : Path.Named [.field "blocks", .index i] := by
    simp [Path.Named]
    decide
  induction h with
  | chapter => exact Path.named_field.mpr (by decide)
  | top => exact hblocks _
  | step _ hleads _ ih => exact Path.named_append.mpr ⟨ih, hleads.named⟩

theorem Requires.named {role : Role} {owner : Members} {key : String}
    (h : Requires role owner key) : key ∈ contractNames := by
  have hchapter : ["chapterId", "title", "anchor", "order", "blocks"] ⊆ contractNames := by decide
  have hheading : ["level", "text", "anchor"] ⊆ contractNames := by decide
  have hwidget : ["widgetId", "widgetType"] ⊆ contractNames := by decide
  cases h with
  | chapter hkey => exact hchapter hkey
  | heading _ hkey => exact hheading hkey
  | widget _ hkey => exact hwidget hkey
  | _ => decide

theorem Demands.named {role : Role} {w : Value} {key : String} {form : Form}
    (h : Demands role w key form) : key ∈ contractNames := by
  cases h <;> decide

/-- **`Founded.named`** -- the names on the path of a diagnostic are those of the contracts. -/
theorem Founded.named {limit : Nat} {v : Value} {kind : DefectKind} {path : Path}
    (h : Founded limit v kind path) : path.Named := by
  have field {role : Role} {place : Path} {w : Value} {key : String}
      (hstands : Stands v role place w) (hkey : key ∈ contractNames) :
      Path.Named (place ++ [.field key]) :=
    Path.named_append.mpr ⟨hstands.named, Path.named_field.mpr hkey⟩
  cases h with
  | absent hstands hkey => exact field hstands hkey.named
  | nullTitle hstands => exact field hstands (by decide)
  | keyFigure hstands => exact hstands.named
  | widget hstands => exact hstands.named
  | node hstands => exact hstands.named
  | field hstands hkey => exact field hstands hkey.named
  | blockType hstands => exact field hstands (by decide)
  | markType hstands => exact field hstands (by decide)
  | engine hstands => exact field hstands (by decide)
  | listType hstands => exact field hstands (by decide)
  | tone hstands => exact field hstands (by decide)
  | quotedMark hstands => exact field hstands (by decide)
  | quotedType hstands => exact field hstands (by decide)
  | title hstands => exact field hstands (by decide)
  | tooDeep hstands => exact hstands.named

theorem Chapter.named_of_mem_diagnostics {limit : Nat} {v : Value} {d : Diagnostic}
    (hd : d ∈ diagnostics limit v) : d.path.Named :=
  (founded_of_mem_diagnostics d hd).named

end ChapterCheck
