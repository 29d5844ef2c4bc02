/-
# ChapterCheck.Vocabulary -- the closed sets of words

A chapter names the kinds of its blocks and marks, the style of a list, the tone of a callout and
the engine of a quote by words out of closed sets. Each set is an inductive type, and `Tagged` ties
its members to their words: every member is listed, and no two share a word. Words are told apart by
case.

`Tagged.ofTag?` reads a word, and `ofTag?_eq_some_iff` says that it does so exactly.
-/
import ChapterCheck.Json.Value

namespace ChapterCheck

open Json

/-! ## Words and what they stand for -/

/-- **`Tagged`** -- a finite type whose members are written as words. -/
class Tagged (α : Type) where
  all : List α
  tag : α → String
  complete : ∀ a, a ∈ all
  distinct : ∀ a b, tag a = tag b → a = b

namespace Tagged

variable {α : Type} [Tagged α]

/-- **`ofTag?`** -- the member that a word stands for. -/
def ofTag? (α : Type) [Tagged α] (word : String) : Option α :=
  all.find? fun a => tag a == word

/-- **`ofValue?`** -- the member that a value names, which has to be a string. -/
def ofValue? (α : Type) [Tagged α] (v : Option Value) : Option α :=
  (v.bind Value.asString?).bind (ofTag? α)

theorem ofTag?_eq_some_iff {word : String} {a : α} : ofTag? α word = some a ↔ tag a = word := by
  constructor
  · intro h
    simpa using List.find?_some h
  · rintro rfl
    cases h : ofTag? α (tag a) with
    | none => exact absurd (List.find?_eq_none.mp h a (complete a)) (by simp)
    | some b =>
      have hb : tag b = tag a := by simpa using List.find?_some h
      rw [distinct b a hb]

/-- The words, in the order in which the members are listed. -/
def tags (α : Type) [Tagged α] : List String :=
  all.map (tag (α := α))

end Tagged

/-! ## Blocks -/

/-- The kinds of blocks. -/
inductive BlockKind where
  | heading
  | paragraph
  | list
  | table
  | blockquote
  | engineQuote
  | callout
  | kpiGrid
  | widget
  | code
  | math
  | figure
  deriving DecidableEq, Repr

instance : Tagged BlockKind where
  all := [.heading, .paragraph, .list, .table, .blockquote, .engineQuote, .callout, .kpiGrid,
    .widget, .code, .math, .figure]
  tag
    | .heading => "heading"
    | .paragraph => "paragraph"
    | .list => "list"
    | .table => "table"
    | .blockquote => "blockquote"
    | .engineQuote => "engineQuote"
    | .callout => "callout"
    | .kpiGrid => "kpiGrid"
    | .widget => "widget"
    | .code => "code"
    | .math => "math"
    | .figure => "figure"
  complete a := by cases a <;> decide
  distinct a b := by cases a <;> cases b <;> decide

/-- The styles of a list. -/
inductive ListStyle where
  | ordered
  | bullet
  | task
  deriving DecidableEq, Repr

instance : Tagged ListStyle where
  all := [.ordered, .bullet, .task]
  tag
    | .ordered => "ordered"
    | .bullet => "bullet"
    | .task => "task"
  complete a := by cases a <;> decide
  distinct a b := by cases a <;> cases b <;> decide

/-- The tones of a callout. -/
inductive Tone where
  | info
  | warning
  | success
  | danger
  deriving DecidableEq, Repr

instance : Tagged Tone where
  all := [.info, .warning, .success, .danger]
  tag
    | .info => "info"
    | .warning => "warning"
    | .success => "success"
    | .danger => "danger"
  complete a := by cases a <;> decide
  distinct a b := by cases a <;> cases b <;> decide

/-! ## Marks -/

/-- The kinds of marks on a run of text. -/
inductive MarkKind where
  | bold
  | italic
  | underline
  | strike
  | code
  | link
  | color
  | font
  | highlight
  | subscript
  | superscript
  | math
  deriving DecidableEq, Repr

instance : Tagged MarkKind where
  all := [.bold, .italic, .underline, .strike, .code, .link, .color, .font, .highlight,
    .subscript, .superscript, .math]
  tag
    | .bold => "bold"
    | .italic => "italic"
    | .underline => "underline"
    | .strike => "strike"
    | .code => "code"
    | .link => "link"
    | .color => "color"
    | .font => "font"
    | .highlight => "highlight"
    | .subscript => "subscript"
    | .superscript => "superscript"
    | .math => "math"
  complete a := by cases a <;> decide
  distinct a b := by cases a <;> cases b <;> decide

/-! ## Engines -/

/-- The engines that can be quoted. -/
inductive Engine where
  | insight
  | media
  | query
  deriving DecidableEq, Repr

instance : Tagged Engine where
  all := [.insight, .media, .query]
  tag
    | .insight => "insight"
    | .media => "media"
    | .query => "query"
  complete a := by cases a <;> decide
  distinct a b := by cases a <;> cases b <;> decide

/-- **`Engine.title`** -- the name that stands above a quote of an engine. -/
def Engine.title : Engine → String
  | .insight => "Insight Agent"
  | .media => "Media Agent"
  | .query => "Query Agent"

/-- Engines are named without regard to the case of ASCII letters. -/
def Engine.ofName? (name : String) : Option Engine :=
  Tagged.ofTag? Engine (String.ofList (name.toList.map Char.toLower))

/-! ## The vocabulary as a document -/

namespace Vocabulary

/-- The version of the vocabulary and of the contracts that use it. -/
def version : String := "1.0"

/-- **`json`** -- the vocabulary as a document, in the order of this module. -/
def json : Value :=
  .object
    [("version", .string version),
     ("block_types", .array ((Tagged.tags BlockKind).map .string)),
     ("inline_marks", .array ((Tagged.tags MarkKind).map .string)),
     ("engine_titles", .object
       ((Tagged.all (α := Engine)).map fun e => (Tagged.tag e, .string e.title)))]

end Vocabulary

end ChapterCheck
