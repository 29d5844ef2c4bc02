/-
# ChapterCheck.Proofs.Held -- the blocks that a look finds

One look at a block finds the blocks that it holds, each once and in the order of the document:
`Block.held_survey` says that the blocks among the findings are those of `Block.nested`. Runs, marks
and the quotes of engines hold none: what is found in them are defects alone.
-/
import ChapterCheck.Proofs.Plain
import ChapterCheck.Proofs.Roles

namespace ChapterCheck

open Json

/-! ## The blocks of a survey -/

/-- The block that a finding is, at its place. -/
def Finding.block? : Finding → Option Placed
  | .defect _ _ => none
  | .block place v => some (place, v)

namespace Survey

variable {owner : Members} {key : String} {check : Value → Survey}

/-- **`held`** -- the blocks that a survey finds, each at its place. -/
def held (s : Survey) : List Placed :=
  s.filterMap Finding.block?

theorem mem_held {s : Survey} {place : Path} {v : Value} :
    (place, v) ∈ held s ↔ .block place v ∈ s := by
  rw [held, List.mem_filterMap]
  constructor
  · rintro ⟨f, hf, hblock⟩
    cases f with
    | defect _ _ => cases hblock
    | block _ _ => cases hblock; exact hf
  · intro h
    exact ⟨_, h, rfl⟩

theorem held_append (s t : Survey) : held (s ++ t) = held s ++ held t :=
  List.filterMap_append

theorem held_under (base : Path) (s : Survey) :
    held (Survey.under base s) = (held s).map (Placed.under base) := by
  rw [held, held, Survey.under, List.filterMap_map, List.map_filterMap]
  congr 1
  funext f
  cases f <;> rfl

/-- Where all is defects, there are no blocks. -/
theorem held_of_defects {s : Survey} (h : All Finding.IsDefect s) : held s = [] := by
  rw [held, List.filterMap_eq_nil_iff]
  intro f hf
  cases f with
  | defect _ _ => rfl
  | block _ _ => exact (h _ hf).elim

theorem held_word (α : Type) [Tagged α] (owner : Members) (key : String) :
    held (word α owner key) = [] :=
  held_of_defects (all_word Finding.stable_isDefect α owner key)

theorem held_each (check : Value → Survey) (items : List Value) :
    held (each check items)
      = items.zipIdx.flatMap fun (v, i) => (held (check v)).map (Placed.under [.index i]) := by
  rw [each, held, List.filterMap_flatMap]
  congr 1
  funext x
  exact held_under [.index x.2] (check x.1)

theorem held_each_block (items : List Value) :
    held (each Survey.block items) = placed [] items := by
  rw [held_each, placed, List.map_eq_flatMap]
  rfl

/-- The elements of a field that has to be filled are looked at whether it is filled or not: there
are none if it is not. -/
theorem held_filled (owner : Members) (key : String) (check : Value → Survey) :
    held (filled owner key check) = (elements (.object owner) key).zipIdx.flatMap fun (v, i) =>
      (held (check v)).map (Placed.under [.field key, .index i]) := by
  rcases filled_cases owner key check with ⟨items, hitems, -, heq⟩ | ⟨hunfilled, heq⟩
  · rw [heq, held_under, held_each, List.map_flatMap,
      elements_of_field? (v := .object owner) hitems]
    congr 1
    funext x
    rw [List.map_map]
    rfl
  · rw [heq, elements_of_unfilled hunfilled]
    rfl

theorem held_filled_block (owner : Members) (key : String) :
    held (filled owner key Survey.block) = placed [.field key] (elements (.object owner) key) := by
  rw [held_filled, placed, List.map_eq_flatMap]
  rfl

end Survey

/-! ## The blocks of blocks -/

namespace Block

theorem held_listItem (v : Value) :
    Survey.held (listItem v) = placed [] (v.asArray?.getD []) := by
  unfold listItem
  split
  · exact Survey.held_each_block _
  · rename_i h
    -- What is no array has no elements to place, and neither has an empty one.
    show [] = _
    cases v with
    | array items =>
      cases items with
      | nil => rfl
      | cons first rest => exact absurd rfl (h first rest)
    | _ => rfl

theorem held_tableCell (v : Value) :
    Survey.held (tableCell v) = placed [.field "blocks"] (elements v "blocks") := by
  cases v with
  | object cell => exact Survey.held_filled_block cell "blocks"
  | _ => rfl

theorem elements_members (v : Value) (key : String) :
    elements (.object (v.asObject?.getD [])) key = elements v key := by
  cases v <;> rfl

theorem map_under_placed (inner base : Path) (items : List Value) :
    (placed base items).map (Placed.under inner) = placed (inner ++ base) items := by
  rw [placed, placed, List.map_map]
  congr 1
  funext x
  exact congrArg (·, x.1) (List.append_assoc inner base [.index x.2]).symm

theorem held_tableRow (v : Value) :
    Survey.held (tableRow v) = (elements v "cells").zipIdx.flatMap fun (cell, c) =>
      placed [.field "cells", .index c, .field "blocks"] (elements cell "blocks") := by
  rw [tableRow, Survey.held_filled, elements_members]
  congr 1
  funext x
  show (Survey.held (tableCell x.1)).map _ = _
  rw [held_tableCell, map_under_placed]
  rfl

/-- **`held_survey`** -- a look at a block finds the blocks that it holds, each once and in the
order of the document. -/
theorem held_survey (v : Value) : Survey.held (survey v) = nested v := by
  cases v with
  | object block =>
    have hkind : (Value.object block).asObject?.bind kind? = kind? block := rfl
    rw [nested, hkind, survey, Survey.object]
    cases kind? block with
    | none => rfl
    | some kind =>
      show Survey.held (contract block kind) = _
      -- The kinds that hold blocks, one by one; all others find defects alone.
      cases kind with
      | list =>
        rw [contract, Survey.held_append, Survey.held_word, Survey.held_filled]
        simp only [held_listItem, map_under_placed]
        rfl
      | table =>
        rw [contract, Survey.held_filled]
        simp only [held_tableRow, List.map_flatMap, map_under_placed]
        rfl
      | blockquote => exact Survey.held_filled_block block "blocks"
      | callout =>
        rw [contract, Survey.held_append, Survey.held_word, Survey.held_filled_block]
        rfl
      | _ =>
        apply Survey.held_of_defects
        exact isDefect_contract id block
  | _ => rfl

end Block

/-! ## The blocks of chapters -/

namespace Chapter

theorem held_blocksSurvey (chapter : Members) :
    Survey.held (blocksSurvey chapter)
      = placed [.field "blocks"] (elements (.object chapter) "blocks") := by
  rcases blocksSurvey_cases chapter with ⟨items, hitems, -, heq⟩ | ⟨hunfilled, heq⟩
  · rw [heq, Survey.held_under, Survey.held_each_block, Block.map_under_placed,
      elements_of_field? (v := .object chapter) hitems]
    rfl
  · rw [heq, elements_of_unfilled hunfilled]
    rfl

/-- **`held_survey`** -- a look at a chapter finds the blocks of level one. -/
theorem held_survey (v : Value) : Survey.held (survey v) = blocksAt v 1 := by
  rw [blocksAt_one]
  cases v with
  | object chapter =>
    show Survey.held (Survey.under _ (headerSurvey chapter) ++ blocksSurvey chapter) = _
    rw [Survey.held_append, Survey.held_under, held_blocksSurvey,
      Survey.held_of_defects (isDefect_headerSurvey chapter)]
    rfl
  | _ => rfl

end Chapter

end ChapterCheck
