/-
# ChapterCheck.Proofs.Locality -- a block is judged as it would be on its own

What is told at and under a block of a chapter does not depend on what is around the block. The main
statement is `Validator.errors_isolated_block`: these diagnostics stand in a row, and one by one
they are those of a chapter with this block alone, under the limit that is left at its level.

A `Remark` is a diagnostic without its place and the limit: its kind, the steps behind the place,
the text behind the written path. What the walk tells of a block are remarks that depend on the
block and the levels that are left (`Block.diagnostics_eq`), told of the place of the block.
-/
import ChapterCheck.Proofs.Plain
import ChapterCheck.Proofs.Walk
import ChapterCheck.Validator

namespace ChapterCheck

open Json Grammar

/-! ## Remarks -/

/-- A **`Remark`** -- what a diagnostic says, without the place that it says it of. -/
inductive Remark where
  /-- Something of a kind, in words, some steps behind the place. -/
  | plain (kind : DefectKind) (steps : Path) (text : String)
  /-- A block some steps behind the place is too deep. -/
  | tooDeep (steps : Path)

/-- **`Remark.told`** -- a remark, told of a place. The limit shows where a block is too deep, and
nowhere else. -/
def Remark.told (limit : Nat) (place : Path) : Remark → Diagnostic
  | .plain kind steps text => ⟨kind, place ++ steps, (place ++ steps).render ++ text⟩
  | .tooDeep steps =>
    ⟨.tooDeep, place ++ steps,
      (place ++ steps).render ++ " exceeds maximum nesting depth of " ++ Nat.repr limit⟩

/-- The remarks on a finding some steps behind a place, when there are `room` levels left. -/
def Finding.remarks : (room : Nat) → (steps : Path) → Finding → List Remark
  | _, steps, .defect q what => [.plain what.kind (steps ++ q) (" " ++ what.clause)]
  | 0, steps, .block q _ => [.tooDeep (steps ++ q)]
  | room + 1, steps, .block q v =>
    (Block.survey v).flatMap (Finding.remarks room (steps ++ q))

theorem Defect.Plain.diagnostic_eq {what : Defect} (h : what.Plain) (limit : Nat)
    (place steps q : Path) :
    what.diagnostic (place ++ steps ++ q)
      = Remark.told limit place (.plain what.kind (steps ++ q) (" " ++ what.clause)) := by
  rw [Defect.diagnostic, h.message_eq, List.append_assoc]
  rfl

/-- What is told of a plain finding is what there is to remark, at any place and under any limit. -/
theorem Finding.Plain.diagnose_eq (limit : Nat) (place : Path) {room : Nat} {f : Finding}
    (hf : f.Plain) (steps : Path) :
    f.diagnose limit room (place ++ steps)
      = (f.remarks room steps).map (Remark.told limit place) := by
  induction room generalizing f steps with
  | zero =>
    cases f with
    | defect q what =>
      rw [diagnose_defect, Defect.Plain.diagnostic_eq hf limit]
      rfl
    | block q v =>
      rw [diagnose_block_zero, Defect.diagnostic_tooDeep, List.append_assoc]
      rfl
  | succ room ih =>
    cases f with
    | defect q what =>
      rw [diagnose_defect, Defect.Plain.diagnostic_eq hf limit]
      rfl
    | block q v =>
      rw [diagnose_block_succ, Survey.diagnose, remarks, List.map_flatMap, List.append_assoc,
        List.flatMap_def, List.flatMap_def]
      -- One level down the steps go on behind the place, and the place stays.
      apply congrArg List.flatten
      apply List.map_congr_left
      intro g hg
      exact ih (Block.plain_survey v g hg) (steps ++ q)

/-- What the walk tells of a block is the same wherever the block stands. -/
theorem Block.diagnostics_eq (limit room : Nat) (place : Path) (v : Value) :
    diagnostics limit room (place, v)
      = (Finding.remarks room [] (.block [] v)).map (Remark.told limit place) := by
  have hdiagnose : Finding.diagnose limit room (place ++ []) (.block [] v)
      = (Finding.remarks room [] (.block [] v)).map (Remark.told limit place) :=
    Finding.Plain.diagnose_eq limit place (f := .block [] v) trivial []
  rwa [Finding.diagnose_block_eq, List.append_nil, List.append_nil] at hdiagnose

/-! ## A chapter with one block -/

/-- A chapter with all header fields and a single block is told of that block alone. -/
theorem Chapter.diagnostics_of_single {limit : Nat} {chapter : Members} {b : Value}
    (hheader : ∀ key ∈ ["chapterId", "title", "anchor", "order", "blocks"], chapter.has key)
    (hblocks : chapter.get? "blocks" = some (.array [b])) :
    diagnostics limit (.object chapter)
      = Block.diagnostics limit limit ([.field "blocks", .index 0], b) := by
  have hnone : headerSurvey chapter = [] := by
    rw [headerSurvey, List.flatMap_eq_nil_iff]
    intro key hkey
    rw [if_pos (hheader key hkey)]
  have hsurvey : survey (.object chapter) = [.block [.field "blocks", .index 0] b] := by
    rw [survey, hnone, blocksSurvey, hblocks]
    rfl
  rw [diagnostics, hsurvey, Survey.diagnose, List.flatMap_singleton]
  rfl

/-! ## Locality -/

/-- **`errors_isolated_block`** -- what a report says at and under a block within the limit stands
in a row, and it is what the report on a chapter with this block alone says under the limit that is
left: the same remarks, told of the place of the block. -/
theorem Validator.errors_isolated_block (validator inner : Validator) {v b : Value} {level : Nat}
    {place : Path} {alone : Members}
    (hstands : Stands v (.block level) place b) (hlevel : level ≤ validator.limit)
    (hinner : inner.limit = validator.limit - level + 1)
    (hheader : ∀ key ∈ ["chapterId", "title", "anchor", "order", "blocks"], alone.has key)
    (hblocks : alone.get? "blocks" = some (.array [b])) :
    ∃ remarks : List Remark,
      Isolated place (remarks.map (Remark.told validator.limit place)) (validator.report v).errors
      ∧ (inner.report (.object alone)).errors
        = remarks.map (Remark.told inner.limit [.field "blocks", .index 0]) := by
  have hroom : inner.limit + level = validator.limit + 1 := by omega
  refine ⟨Finding.remarks inner.limit [] (.block [] b), ?_, ?_⟩
  · have hisolated := Chapter.isolated_block (Chapter.mem_blocksAt_iff.mpr hstands) hroom
    rwa [Block.diagnostics_eq] at hisolated
  · have halone : (inner.report (.object alone)).errors
        = Block.diagnostics inner.limit inner.limit ([.field "blocks", .index 0], b) :=
      Chapter.diagnostics_of_single hheader hblocks
    rw [halone, Block.diagnostics_eq]

/-- A callout with a tone that is none, which holds no block but a `null`. -/
def loudCallout : Value :=
  .object [("blocks", .array [.null]), ("tone", .string "loud"), ("type", .string "callout")]

/-- A quote that holds the callout. -/
def calloutQuote : Members :=
  [("blocks", .array [loudCallout]), ("type", .string "blockquote")]

/-- A chapter that holds the quote and lacks all other fields. -/
def quotedCallout : Value :=
  .object [("blocks", .array [.object calloutQuote])]

/-- A chapter with all header fields and the callout alone. -/
def calloutAlone : Members :=
  [("anchor", .null), ("blocks", .array [loudCallout]), ("chapterId", .null), ("order", .null),
    ("title", .null)]

/-- The remarks on the callout where one level is left, on its tone and on what is too deep. -/
def calloutRemarks : List Remark :=
  [.plain .invalidValue [.field "tone"] " is invalid: loud",
    .tooDeep [.field "blocks", .index 0]]

/-- In the quote, with two levels, and alone, with one, the same is told of the callout. -/
theorem Validator.errors_isolated_block_callout :
    Stands quotedCallout (.block 2)
        [.field "blocks", .index 0, .field "blocks", .index 0] loudCallout
      ∧ 2 ≤ (withDepth 2 (by decide)).limit
      ∧ (withDepth 1 (by decide)).limit = (withDepth 2 (by decide)).limit - 2 + 1
      ∧ (∀ key ∈ ["chapterId", "title", "anchor", "order", "blocks"], calloutAlone.has key)
      ∧ calloutAlone.get? "blocks" = some (.array [loudCallout])
      ∧ Isolated [.field "blocks", .index 0, .field "blocks", .index 0]
        (calloutRemarks.map
          (Remark.told 2 [.field "blocks", .index 0, .field "blocks", .index 0]))
        ((withDepth 2 (by decide)).report quotedCallout).errors
      ∧ ((withDepth 1 (by decide)).report (.object calloutAlone)).errors
        = calloutRemarks.map (Remark.told 1 [.field "blocks", .index 0]) := by
  have hstands : Stands quotedCallout (.block 2)
      [.field "blocks", .index 0, .field "blocks", .index 0] loudCallout := by
    have hquote : Stands quotedCallout (.block 1) [.field "blocks", .index 0]
        (.object calloutQuote) := .top rfl
    have hnamed : Named calloutQuote "blockquote" := rfl
    exact hquote.step (.blockquote hnamed) rfl
  have hlevel : 2 ≤ (withDepth 2 (by decide)).limit := by decide
  have hinner : (withDepth 1 (by decide)).limit = (withDepth 2 (by decide)).limit - 2 + 1 := rfl
  have hheader : ∀ key ∈ ["chapterId", "title", "anchor", "order", "blocks"],
      calloutAlone.has key := by decide
  obtain ⟨remarks, hisolated, -⟩ := errors_isolated_block (withDepth 2 (by decide))
    (withDepth 1 (by decide)) hstands hlevel hinner hheader rfl
  have hremarks : remarks.map
      (Remark.told 2 [.field "blocks", .index 0, .field "blocks", .index 0])
      = calloutRemarks.map
        (Remark.told 2 [.field "blocks", .index 0, .field "blocks", .index 0]) := by
    refine hisolated.filter_eq.symm.trans ?_
    decide +kernel
  have halone : ((withDepth 1 (by decide)).report (.object calloutAlone)).errors
      = calloutRemarks.map (Remark.told 1 [.field "blocks", .index 0]) := by decide +kernel
  exact ⟨hstands, hlevel, hinner, hheader, rfl, hremarks ▸ hisolated, halone⟩

end ChapterCheck
