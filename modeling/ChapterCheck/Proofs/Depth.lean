/-
# ChapterCheck.Proofs.Depth -- how deep the blocks of a chapter in order can lie

`Lies` counts the depth of blocks along every way in which one block can hold another, the quotes of
engines included. The levels of the walk (`Stands`) leave those out: what such a quote holds is on
no level and is never told as too deep.

So for a chapter in order the limit is kept everywhere but there. A block lies within the limit, or
it lies one below it, as a paragraph in the quote of an engine that is itself at the limit
(`Validator.depth_le_of_errors_eq_nil`). Where no such quote lies at the limit, the limit holds for
every block.
-/
import ChapterCheck.Proofs.Acceptance
import ChapterCheck.Proofs.Held

namespace ChapterCheck

open Json Grammar

/-! ## The depth of a block -/

/-- **`Lies`** -- a block of a chapter, with the number of blocks on the way to it, itself
included, and the path to it. -/
inductive Lies (v : Value) : Nat → Path → Value → Prop
  | top {i : Nat} {b : Value} : v.resolve? [.field "blocks", .index i] = some b →
      Lies v 1 [.field "blocks", .index i] b
  | held {depth : Nat} {outer inner : Path} {block : Members} {b : Value} :
      Lies v depth outer (.object block) → Block.Holds block inner →
      (Value.object block).resolve? inner = some b → Lies v (depth + 1) (outer ++ inner) b
  | quoted {depth i : Nat} {outer : Path} {quote : Members} {b : Value} :
      Lies v depth outer (.object quote) → Named quote "engineQuote" →
      (Value.object quote).resolve? [.field "blocks", .index i] = some b →
      Lies v (depth + 1) (outer ++ [.field "blocks", .index i]) b

/-! ## Blocks of the grammar -/

section Grammar

variable {limit level : Nat} {block : Members} {inner : Path} {b : Value}

/-- What a block of the grammar holds are blocks of the grammar, one level down. -/
theorem Grammar.IsBlock.of_holds (h : IsBlock limit level (.object block))
    (hholds : Block.Holds block inner) (hb : (Value.object block).resolve? inner = some b) :
    IsBlock limit (level + 1) b := by
  have hlevel : level ≤ limit := (Block.contract_of_isBlock h).1
  have hfound : Finding.block inner b ∈ Block.survey (.object block) := by
    rw [← Survey.mem_held, Block.held_survey]
    exact Block.mem_nested_iff.mpr ⟨block, rfl, hholds, hb⟩
  exact (Block.onlyBlocks_survey_iff hlevel).mpr h _ hfound

/-- What the quote of an engine holds are paragraphs, one or more. -/
theorem Grammar.IsBlock.quoted (h : IsBlock limit level (.object block))
    (hnamed : Named block "engineQuote") : block.Filled "blocks" IsQuotedParagraph := by
  obtain ⟨-, _, kind, ⟨⟩, hkind, hcontract⟩ := Block.contract_of_isBlock h
  obtain rfl : kind = .engineQuote := by
    have hword : Block.kind? block = some .engineQuote := Block.kind?_eq_some_iff.mpr hnamed
    exact Option.some.inj ((Block.kind?_eq_some_iff.mpr hkind).symm.trans hword)
  rw [Block.contract, Survey.onlyBlocks_append, Survey.onlyBlocks_filled] at hcontract
  simpa only [Block.onlyBlocks_quotedParagraph] using hcontract.2

theorem Grammar.IsQuotedParagraph.named (h : IsQuotedParagraph (.object block)) :
    Named block "paragraph" := by
  cases h with
  | mk hnamed _ => exact hnamed

theorem Grammar.Named.eq {word other : String} (h : Named block word) (hother : Named block other) :
    word = other := by
  have hget : some (Value.string word) = some (Value.string other) := h.symm.trans hother
  simpa using hget

/-- A paragraph in a quote holds nothing more. -/
theorem Grammar.IsQuotedParagraph.not_holds (h : IsQuotedParagraph (.object block)) :
    ¬Block.Holds block inner := by
  intro hholds
  cases hholds with
  | blockquote _ hnamed => exact absurd (h.named.eq hnamed) (by decide)
  | callout _ hnamed => exact absurd (h.named.eq hnamed) (by decide)
  | list _ _ hnamed => exact absurd (h.named.eq hnamed) (by decide)
  | table _ _ _ hnamed => exact absurd (h.named.eq hnamed) (by decide)

/-- The blocks of a chapter of the grammar are blocks of the grammar on level one. -/
theorem Grammar.IsChapter.top {v : Value} {i : Nat} (h : IsChapter limit v)
    (hb : v.resolve? [.field "blocks", .index i] = some b) : IsBlock limit 1 b := by
  have hfound : Finding.block [.field "blocks", .index i] b ∈ Chapter.survey v := by
    rw [← Survey.mem_held, Chapter.held_survey, Chapter.blocksAt_one]
    exact mem_placed_elements.mpr ⟨i, hb, rfl⟩
  exact Chapter.onlyBlocks_survey_iff.mpr h _ hfound

end Grammar

/-! ## The limit -/

/-- A block that is in the quote of an engine, and how deep the quote lies. -/
def LiesInQuote (v : Value) (depth : Nat) (place : Path) : Prop :=
  ∃ outer quote i, place = outer ++ [.field "blocks", .index i] ∧ Lies v depth outer (.object quote)
    ∧ Named quote "engineQuote"

/-- **`isBlock_or_quoted`** -- how deep a block of a chapter of the grammar lies is the level on
which the grammar has it, unless it is in the quote of an engine; then the quote lies so. -/
theorem Lies.isBlock_or_quoted {limit depth : Nat} {v b : Value} {place : Path}
    (hchapter : IsChapter limit v) (h : Lies v depth place b) :
    IsBlock limit depth b ∨ ∃ above, depth = above + 1 ∧ above ≤ limit ∧ IsQuotedParagraph b
      ∧ LiesInQuote v above place := by
  induction h with
  | top hb => exact .inl (hchapter.top hb)
  | held _ hholds hb ih =>
    rcases ih with hblock | ⟨_, -, -, hparagraph, -⟩
    · exact .inl (hblock.of_holds hholds hb)
    · exact absurd hholds hparagraph.not_holds
  | @quoted depth i outer quote b hquote hnamed hb ih =>
    rcases ih with hblock | ⟨_, -, -, hparagraph, -⟩
    · obtain ⟨items, hitems, -, hall⟩ := hblock.quoted hnamed
      rw [← elements_getElem?, elements_of_field? (v := .object quote) hitems] at hb
      have hle : depth ≤ limit := (Block.contract_of_isBlock hblock).1
      have hparagraph : IsQuotedParagraph b := hall b (List.mem_of_getElem? hb)
      exact .inr ⟨depth, rfl, hle, hparagraph, outer, quote, i, rfl, hquote, hnamed⟩
    · exact absurd (hparagraph.named.eq hnamed) (by decide)

/-- The quote of an engine in a chapter of the grammar holds a block one below itself. -/
theorem Lies.exists_below_quote {limit depth : Nat} {v : Value} {place : Path} {quote : Members}
    (hchapter : IsChapter limit v) (h : Lies v depth place (.object quote))
    (hnamed : Named quote "engineQuote") : ∃ inner b, Lies v (depth + 1) inner b := by
  rcases h.isBlock_or_quoted hchapter with hblock | ⟨_, -, -, hparagraph, -⟩
  · obtain ⟨items, hitems, hne, -⟩ := hblock.quoted hnamed
    obtain ⟨first, rest, rfl⟩ := List.exists_cons_of_ne_nil hne
    have hfirst : (Value.object quote).resolve? [.field "blocks", .index 0] = some first := by
      rw [← elements_getElem?, elements_of_field? (v := .object quote) hitems]
      rfl
    exact ⟨_, _, .quoted h hnamed hfirst⟩
  · exact absurd (hparagraph.named.eq hnamed) (by decide)

/-- **`depth_le_of_errors_eq_nil`** -- if a report has no errors, every block lies within the limit,
but for the paragraphs in the quote of an engine that is itself at the limit. The limit holds for
every block exactly if no such quote is there. -/
theorem Validator.depth_le_of_errors_eq_nil (validator : Validator) {v : Value}
    (h : (validator.report v).errors = []) :
    (∀ depth place b, Lies v depth place b → depth ≤ validator.limit
      ∨ depth = validator.limit + 1 ∧ IsQuotedParagraph b ∧ LiesInQuote v validator.limit place)
    ∧ ((∀ depth place b, Lies v depth place b → depth ≤ validator.limit) ↔
      ∀ place quote, Lies v validator.limit place (.object quote) →
        ¬Named quote "engineQuote") := by
  have hchapter : IsChapter validator.limit v :=
    (Survey.diagnose_eq_nil_iff.trans Chapter.onlyBlocks_survey_iff).mp h
  have hdepth (depth : Nat) (place : Path) (b : Value) (hlies : Lies v depth place b) :
      depth ≤ validator.limit
        ∨ depth = validator.limit + 1 ∧ IsQuotedParagraph b
          ∧ LiesInQuote v validator.limit place := by
    rcases hlies.isBlock_or_quoted hchapter with hblock | ⟨above, rfl, habove, hparagraph, hquote⟩
    · exact .inl (Block.contract_of_isBlock hblock).1
    · rcases Nat.lt_or_eq_of_le habove with hlt | rfl
      · exact .inl hlt
      · exact .inr ⟨rfl, hparagraph, hquote⟩
  refine ⟨hdepth, ?_, ?_⟩
  · intro hall place quote hquote hnamed
    obtain ⟨inner, b, hbelow⟩ := hquote.exists_below_quote hchapter hnamed
    exact absurd (hall _ _ _ hbelow) (by omega)
  · intro hnone depth place b hlies
    rcases hdepth depth place b hlies with hle | ⟨-, -, outer, quote, i, -, hquote, hnamed⟩
    · exact hle
    · exact absurd hnamed (hnone outer quote hquote)

/-- A paragraph with one run. -/
def oneParagraph : Value :=
  .object [("inlines", .array [.object [("text", .string "t")]]), ("type", .string "paragraph")]

/-- The quote of an engine that holds the paragraph. -/
def engineQuote : Members :=
  [("blocks", .array [oneParagraph]), ("engine", .string "media"), ("title", .string "Media Agent"),
    ("type", .string "engineQuote")]

/-- A chapter with the quote for its only block. -/
def quoteChapter : Value :=
  .object [("anchor", .string "a"), ("blocks", .array [.object engineQuote]),
    ("chapterId", .string "c"), ("order", .number (.integer 1)), ("title", .string "T")]

/-- With two levels, the quote and its paragraph are within the limit. -/
theorem Validator.depth_le_of_errors_eq_nil_quote :
    ((withDepth 2 (by decide)).report quoteChapter).errors = []
      ∧ ∀ depth place b, Lies quoteChapter depth place b →
        depth ≤ (withDepth 2 (by decide)).limit
          ∨ depth = (withDepth 2 (by decide)).limit + 1 ∧ IsQuotedParagraph b
            ∧ LiesInQuote quoteChapter (withDepth 2 (by decide)).limit place := by
  have hnone : ((withDepth 2 (by decide)).report quoteChapter).errors = [] := by decide
  exact ⟨hnone, (depth_le_of_errors_eq_nil _ hnone).1⟩

/-- With one level, the chapter is in order as well, and the paragraph lies below the limit. -/
theorem Validator.exists_depth_gt_limit :
    ((withDepth 1 (by decide)).report quoteChapter).errors = []
      ∧ Lies quoteChapter 2 [.field "blocks", .index 0, .field "blocks", .index 0] oneParagraph
      ∧ (withDepth 1 (by decide)).limit < 2 := by
  have hnone : ((withDepth 1 (by decide)).report quoteChapter).errors = [] := by decide
  have hquote : Lies quoteChapter 1 [.field "blocks", .index 0] (.object engineQuote) := .top rfl
  exact ⟨hnone, .quoted hquote rfl rfl, by decide⟩

end ChapterCheck
