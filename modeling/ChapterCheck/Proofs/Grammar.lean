/-
# ChapterCheck.Proofs.Grammar -- the chapters in order, as a grammar

`IsChapter` says what a chapter has to be, as a grammar over documents: one rule for each kind of
block, with the words and the keys as they are written. It knows nothing of surveys or diagnostics.
-/
import ChapterCheck.Proofs.Findings

namespace ChapterCheck

open Json

/-! ## The grammar -/

namespace Grammar

/-- The words for blocks. -/
def blockWords : List String :=
  ["heading", "paragraph", "list", "table", "blockquote", "engineQuote", "callout", "kpiGrid",
    "widget", "code", "math", "figure"]

/-- The words for marks. -/
def markWords : List String :=
  ["bold", "italic", "underline", "strike", "code", "link", "color", "font", "highlight",
    "subscript", "superscript", "math"]

/-- The words for the marks that the quote of an engine may have. -/
def quotedMarkWords : List String := ["bold", "italic"]

/-- A field that holds one of some words. -/
def Word (words : List String) (owner : Members) (key : String) : Prop :=
  ∃ word ∈ words, owner.get? key = some (.string word)

/-- An object whose `type` is a word. -/
def Named (owner : Members) (word : String) : Prop :=
  owner.get? "type" = some (.string word)

/-- A mark has a `type` among the words. -/
inductive IsMark (words : List String) : Value → Prop
  | mk {mark : Members} : Word words mark "type" → IsMark words (.object mark)

/-- The marks of a run may be left out or `null`, and there may be none. -/
inductive HasMarks (words : List String) (run : Members) : Prop
  | absent : run.get? "marks" = none → HasMarks words run
  | null : run.get? "marks" = some .null → HasMarks words run
  | array {marks : List Value} : run.get? "marks" = some (.array marks) →
      (∀ mark ∈ marks, IsMark words mark) → HasMarks words run

/-- A run has a text. -/
inductive IsRun (words : List String) : Value → Prop
  | mk {run : Members} : run.has "text" → HasMarks words run → IsRun words (.object run)

/-- The quote of an engine holds paragraphs of runs with few marks. -/
inductive IsQuotedParagraph : Value → Prop
  | mk {block : Members} : Named block "paragraph" →
      block.Filled "inlines" (IsRun quotedMarkWords) → IsQuotedParagraph (.object block)

/-- A key figure has a label and a value. -/
inductive IsKeyFigure : Value → Prop
  | mk {item : Members} : item.has "label" → item.has "value" → IsKeyFigure (.object item)

/-- A quote names an engine, in any case. -/
def NamesEngine (quote : Members) (engine : Engine) : Prop :=
  ∃ name, quote.get? "engine" = some (.string name)
    ∧ name.toList.map Char.toLower = (Tagged.tag engine).toList

/-- The title of a quote is the one that goes with its engine. -/
inductive IsEngine (quote : Members) : Prop
  | mk (engine : Engine) : NamesEngine quote engine →
      quote.get? "title" = some (.string engine.title) → IsEngine quote

mutual

/-- **`IsBlock`** -- a block on a level. -/
inductive IsBlock (limit : Nat) : (level : Nat) → Value → Prop
  | heading {level : Nat} {block : Members} {n : Int} : level ≤ limit →
      Named block "heading" → block.get? "level" = some (.number (.integer n)) →
      block.has "text" → block.has "anchor" → IsBlock limit level (.object block)
  | paragraph {level : Nat} {block : Members} : level ≤ limit →
      Named block "paragraph" → block.Filled "inlines" (IsRun markWords) →
      IsBlock limit level (.object block)
  | list {level : Nat} {block : Members} {items : List Value} : level ≤ limit →
      Named block "list" → Word ["ordered", "bullet", "task"] block "listType" →
      block.get? "items" = some (.array items) → items ≠ [] →
      (∀ item ∈ items, IsBlocks limit (level + 1) item) → IsBlock limit level (.object block)
  | table {level : Nat} {block : Members} {rows : List Value} : level ≤ limit →
      Named block "table" → block.get? "rows" = some (.array rows) → rows ≠ [] →
      (∀ row ∈ rows, IsRow limit (level + 1) row) → IsBlock limit level (.object block)
  | blockquote {level : Nat} {block : Members} {held : Value} : level ≤ limit →
      Named block "blockquote" → block.get? "blocks" = some held →
      IsBlocks limit (level + 1) held → IsBlock limit level (.object block)
  | engineQuote {level : Nat} {block : Members} : level ≤ limit →
      Named block "engineQuote" → IsEngine block →
      block.Filled "blocks" IsQuotedParagraph → IsBlock limit level (.object block)
  | callout {level : Nat} {block : Members} {held : Value} : level ≤ limit →
      Named block "callout" → Word ["info", "warning", "success", "danger"] block "tone" →
      block.get? "blocks" = some held → IsBlocks limit (level + 1) held →
      IsBlock limit level (.object block)
  | kpiGrid {level : Nat} {block : Members} : level ≤ limit →
      Named block "kpiGrid" → block.Filled "items" IsKeyFigure →
      IsBlock limit level (.object block)
  | widget {level : Nat} {block : Members} : level ≤ limit →
      Named block "widget" → block.has "widgetId" → block.has "widgetType" →
      block.has "data" ∨ block.has "dataRef" → IsBlock limit level (.object block)
  | code {level : Nat} {block : Members} : level ≤ limit →
      Named block "code" → block.has "content" → IsBlock limit level (.object block)
  | math {level : Nat} {block : Members} : level ≤ limit →
      Named block "math" → block.has "latex" → IsBlock limit level (.object block)
  | figure {level : Nat} {block img : Members} : level ≤ limit →
      Named block "figure" → block.get? "img" = some (.object img) → img.has "src" →
      IsBlock limit level (.object block)

/-- **`IsBlocks`** -- an array of one or more blocks on a level. -/
inductive IsBlocks (limit : Nat) : (level : Nat) → Value → Prop
  | mk {level : Nat} {blocks : List Value} : blocks ≠ [] →
      (∀ block ∈ blocks, IsBlock limit level block) → IsBlocks limit level (.array blocks)

/-- **`IsRow`** -- a row of a table, whose cells hold blocks on a level. -/
inductive IsRow (limit : Nat) : (level : Nat) → Value → Prop
  | mk {level : Nat} {row : Members} {cells : List Value} :
      row.get? "cells" = some (.array cells) → cells ≠ [] →
      (∀ cell ∈ cells, IsCell limit level cell) → IsRow limit level (.object row)

/-- **`IsCell`** -- a cell of a table, which holds blocks on a level. -/
inductive IsCell (limit : Nat) : (level : Nat) → Value → Prop
  | mk {level : Nat} {cell : Members} {held : Value} : cell.get? "blocks" = some held →
      IsBlocks limit level held → IsCell limit level (.object cell)

end

/-- **`IsChapter`** -- a chapter whose blocks are nested `limit` deep at most. -/
inductive IsChapter (limit : Nat) : Value → Prop
  | mk {chapter : Members} {held : Value} : chapter.has "chapterId" → chapter.has "title" →
      chapter.has "anchor" → chapter.has "order" → chapter.get? "blocks" = some held →
      IsBlocks limit 1 held → IsChapter limit (.object chapter)

/-! ## Words and the vocabulary -/

/-- The words of some members of the vocabulary are those that name one of them. -/
theorem word_map_tag_iff {α : Type} [Tagged α] {members : List α} {owner : Members}
    {key : String} :
    Word (members.map Tagged.tag) owner key ↔
      ∃ a ∈ members, Tagged.ofValue? α (owner.get? key) = some a := by
  simp only [Word, List.mem_map, Tagged.ofValue?_eq_some_iff]
  constructor
  · rintro ⟨_, ⟨a, ha, rfl⟩, h⟩
    exact ⟨a, ha, h⟩
  · rintro ⟨a, ha, h⟩
    exact ⟨_, ⟨a, ha, rfl⟩, h⟩

theorem word_tags_iff {α : Type} [Tagged α] {owner : Members} {key : String} :
    Word (Tagged.tags α) owner key ↔ ∃ a, Tagged.ofValue? α (owner.get? key) = some a := by
  simp [Tagged.tags, word_map_tag_iff, Tagged.complete]

end Grammar

open Grammar

theorem Block.kind?_eq_some_iff {block : Members} {kind : BlockKind} :
    kind? block = some kind ↔ Named block (Tagged.tag kind) :=
  Tagged.ofValue?_eq_some_iff

/-- Which engine a quote names is decided by the lower case of its field. -/
theorem Block.engine?_eq_some_iff {quote : Members} {engine : Engine} :
    engine? quote = some engine ↔ NamesEngine quote engine := by
  simp only [engine?, Option.bind_eq_some_iff, Value.asString?_eq_some_iff, Engine.ofName?,
    Tagged.ofTag?_eq_some_iff]
  constructor
  · rintro ⟨name, ⟨_, hget, rfl⟩, htag⟩
    exact ⟨name, hget, by rw [htag, String.toList_ofList]⟩
  · rintro ⟨name, hget, hlower⟩
    exact ⟨name, ⟨_, hget, rfl⟩, by rw [hlower, String.ofList_toList]⟩

theorem Run.any_quotedMarks_iff {mark : Members} :
    (markKind? mark).any (· ∈ quotedMarks) = true ↔ Word quotedMarkWords mark "type" := by
  rw [show quotedMarkWords = quotedMarks.map Tagged.tag from rfl, word_map_tag_iff]
  simp only [Option.any_eq_true, decide_eq_true_eq, markKind?]
  exact exists_congr fun _ => and_comm

end ChapterCheck
