/-
# ChapterCheck.Block -- the contracts of the twelve kinds of blocks

A block is an object whose `type` is one of the twelve kinds. `Block.contract` gives what its kind
demands, field by field in the order in which defects are told, and `Block.survey` what a look at
any value that stands in the place of a block finds.

Four kinds hold blocks of their own: quotes, callouts, the items of a list, the cells of a table.
The quote of an engine holds paragraphs, which are its own matter: they are held to the contract of
quoted text here and are not blocks to be looked at in turn.
-/
import ChapterCheck.Run

namespace ChapterCheck.Block

open Json Survey

/-! ## Parts of blocks -/

/-- Something that has to be an integer; a decimal is none. -/
def integer (owner : Members) (key : String) : Survey :=
  match owner.get? key with
  | some (.number (.integer _)) => []
  | some _ => atField key (.notInteger true)
  | none => atField key (.notInteger false)

/-- An item of a list: one or more blocks. -/
def listItem (v : Value) : Survey :=
  match v with
  | .array (first :: rest) => each Survey.block (first :: rest)
  | _ => here (.shape .filledArrayOfBlocks)

/-- A cell of a table: an object that holds blocks. -/
def tableCell (v : Value) : Survey :=
  object v fun cell => filled cell "blocks" Survey.block

/-- A row of a table: its cells are missed at their own place, whatever the row is. -/
def tableRow (v : Value) : Survey :=
  filled (v.asObject?.getD []) "cells" tableCell

/-- A key figure: a label and a value. -/
def keyFigure (v : Value) : Survey :=
  object v fun item =>
    if item.has "label" && item.has "value" then [] else here .figureIncomplete

/-! ## Quotes of engines -/

/-- The engine that a quote names. -/
def engine? (quote : Members) : Option Engine :=
  ((quote.get? "engine").bind Value.asString?).bind Engine.ofName?

/-- A quote has to name an engine. -/
def engineSurvey (quote : Members) : Survey :=
  match engine? quote with
  | some _ => []
  | none => atField "engine" (.invalid (quote.get? "engine"))

/-- The title has to be that of the engine, as far as there is one to compare with. -/
def titleSurvey (engine : Option Engine) (title : Option Value) : Survey :=
  match title with
  | none => atField "title" .absent
  | some .null => atField "title" .absent
  | some (.string title) =>
    match engine with
    | some e => if title = e.title then [] else atField "title" (.titleMismatch e)
    | none => []
  | some _ => atField "title" (.shape .string)

/-- A quote holds paragraphs of quoted runs and nothing else. -/
def quotedParagraph (v : Value) : Survey :=
  object v fun block =>
    if Tagged.ofValue? BlockKind (block.get? "type") = some .paragraph then
      filled block "inlines" Run.quotedSurvey
    else atField "type" (.blockNotAllowed .paragraph)

/-! ## Blocks -/

/-- **`contract`** -- what a kind of block demands of the members of a block. -/
def contract (block : Members) : BlockKind → Survey
  | .heading => integer block "level" ++ require block "text" ++ require block "anchor"
  | .paragraph => filled block "inlines" Run.survey
  | .list => word ListStyle block "listType" ++ filled block "items" listItem
  | .table => filled block "rows" tableRow
  | .blockquote => filled block "blocks" Survey.block
  | .engineQuote =>
    engineSurvey block ++ titleSurvey (engine? block) (block.get? "title")
      ++ filled block "blocks" quotedParagraph
  | .callout => word Tone block "tone" ++ filled block "blocks" Survey.block
  | .kpiGrid => filled block "items" keyFigure
  | .widget =>
    require block "widgetId" ++ require block "widgetType"
      ++ (if block.has "data" || block.has "dataRef" then [] else here .dataAbsent)
  | .code => require block "content"
  | .math => require block "latex"
  | .figure =>
    match block.get? "img" with
    | some (.object img) => under [.field "img"] (require img "src")
    | _ => atField "img" (.shape .object)

/-- The kind that a block names as its `type`. -/
def kind? (block : Members) : Option BlockKind :=
  Tagged.ofValue? BlockKind (block.get? "type")

/-- **`survey`** -- what a look at a value in the place of a block finds. -/
def survey (v : Value) : Survey :=
  object v fun block =>
    match kind? block with
    | some kind => contract block kind
    | none => atField "type" (.unsupported (block.get? "type"))

end ChapterCheck.Block
