/-
# ChapterCheck.Proofs.Replacement -- another block in the place of a block

When another node is put where a block of a chapter stands, only what is told at and under that
place changes. The main statement is `Validator.errors_replace_block`: the two reports have the same
beginning and the same end, and what stands between them are the diagnostics at and under the place.
Where the walk stops, nothing changes at all.

`Framed` is the relation between the two reports. It goes down with the walk: what is framed within
something framed is framed (`Framed.trans`).
-/
import ChapterCheck.Proofs.Frame
import ChapterCheck.Proofs.Walk
import ChapterCheck.Validator

namespace ChapterCheck

open Json Grammar

/-! ## Framed runs -/

/-- **`Framed`** -- two lists of diagnostics are the same but for a run in each, and the runs are
what they have at or under a place. -/
def Framed (place : Path) (run run' all all' : List Diagnostic) : Prop :=
  ∃ before after, all = before ++ run ++ after ∧ all' = before ++ run' ++ after
    ∧ (∀ d ∈ run, place <+: d.path) ∧ (∀ d ∈ run', place <+: d.path)
    ∧ ∀ d ∈ before ++ after, ¬place <+: d.path

theorem Framed.trans {inner outer : Path} {run run' mid mid' all all' : List Diagnostic}
    (h : Framed inner run run' mid mid') (hmid : Framed outer mid mid' all all')
    (hle : outer <+: inner) : Framed inner run run' all all' := by
  obtain ⟨before, after, rfl, rfl, hunder, hunder', hother⟩ := h
  obtain ⟨first, last, rfl, rfl, -, -, houter⟩ := hmid
  exact ⟨first ++ before, after ++ last, by simp only [List.append_assoc],
    by simp only [List.append_assoc], hunder, hunder', not_under_append hother houter hle⟩

/-- If the runs are the same, all is. -/
theorem Framed.eq {place : Path} {run all all' : List Diagnostic}
    (h : Framed place run run all all') : all' = all := by
  obtain ⟨before, after, rfl, rfl, -⟩ := h
  rfl

/-- Surveys that differ in one block are told alike but for what is told of that block. -/
theorem Survey.Differs.framed {limit room : Nat} {base inner : Path} {b b' : Value} {s s' : Survey}
    (h : Survey.Differs inner (Survey.block b) (Survey.block b') s s')
    (hs : s.Pairwise Finding.Clear) :
    Framed (base ++ inner) (Block.diagnostics limit room (base ++ inner, b))
      (Block.diagnostics limit room (base ++ inner, b')) (s.diagnose limit room base)
      (s'.diagnose limit room base) := by
  obtain ⟨before, after, rfl, rfl⟩ := h
  have hblock (w : Value) : Survey.under inner (Survey.block w) = [.block inner w] := by
    rw [Survey.under, Survey.block, List.map_singleton, Finding.under, List.append_nil]
  have hsplit (w : Value) :
      Survey.diagnose limit room base (before ++ [.block inner w] ++ after)
        = Survey.diagnose limit room base before
          ++ Block.diagnostics limit room (base ++ inner, w)
          ++ Survey.diagnose limit room base after := by
    rw [Survey.diagnose_append, Survey.diagnose_append, ← Finding.diagnose_block_eq]
    congr 2
    exact List.flatMap_singleton _ _
  rw [hblock, List.append_assoc] at hs
  rw [hblock, hblock, hsplit, hsplit]
  exact ⟨_, _, rfl, rfl, fun d hd => Finding.prefix_of_mem_diagnose hd,
    fun d hd => Finding.prefix_of_mem_diagnose hd, Survey.not_under_of_clear hs⟩

/-! ## One level down -/

/-- **`Block.Holds.differs`** -- what a look at a block finds of a block that it holds is that
block, and the rest is the same whatever stands there. -/
theorem Block.Holds.differs {block : Members} {inner : Path} {b : Value} (h : Holds block inner)
    (hb : (Value.object block).resolve? inner = some b) (b' : Value) :
    Survey.Differs inner (Survey.block b) (Survey.block b') (survey (.object block))
      (survey ((Value.object block).put inner b')) := by
  cases h with
  | blockquote i hnamed =>
    have hleads : Leads (.block 0) (.object block) [.field "blocks", .index i] (.block 1) :=
      .blockquote hnamed
    exact hleads.differs nofun hb b'
  | callout i hnamed =>
    have hleads : Leads (.block 0) (.object block) [.field "blocks", .index i] (.block 1) :=
      .callout hnamed
    exact hleads.differs nofun hb b'
  | list i j hnamed =>
    -- A list holds blocks by way of its items.
    obtain ⟨item, hitem, hb⟩ := exists_of_resolve?_two hb
    have hlist : Leads (.block 0) (.object block) [.field "items", .index i] (.listItem 1) :=
      .list hnamed
    have houter := hlist.differs nofun hitem (item.put [.index j] b')
    rw [← Value.put_append hitem] at houter
    exact (differs_listItem hb b').trans houter
  | table r c i hnamed =>
    -- A table does so by way of its rows and their cells.
    obtain ⟨row, hrow, hb⟩ := exists_of_resolve?_two hb
    obtain ⟨cell, hcell, hb⟩ := exists_of_resolve?_two hb
    have hmid := differs_tableRow hcell (cell.put [.field "blocks", .index i] b')
    rw [← Value.put_append hcell] at hmid
    have htable : Leads (.block 0) (.object block) [.field "rows", .index r] (.row 1) :=
      .table hnamed
    have houter := htable.differs nofun hrow
      (row.put ([.field "cells", .index c] ++ [.field "blocks", .index i]) b')
    rw [← Value.put_append hrow] at houter
    exact ((differs_tableCell hb b').trans hmid).trans houter

/-! ## The whole walk -/

/-- **`framed_block`** -- two walks through a chapter, before and after another node is put in the
place of a block, tell the same but for what they tell of that block. -/
theorem Chapter.framed_block {limit room level : Nat} {v b : Value} {place : Path}
    (hstands : Stands v (.block level) place b) (hroom : room + level = limit + 1) (b' : Value) :
    Framed place (Block.diagnostics limit room (place, b))
      (Block.diagnostics limit room (place, b')) (diagnostics limit v)
      (diagnostics limit (v.put place b')) := by
  -- By induction on the level: the block above is itself replaced by one that holds the new node.
  induction level generalizing room place b b' with
  | zero => rcases hstands.block_cases with ⟨hone, -⟩ | ⟨_, _, _, _, hsucc, -⟩ <;> omega
  | succ level ih =>
    rcases hstands.block_cases with ⟨hone, i, rfl, hb⟩ | ⟨above, outer, block, inner, habove, rfl,
      houter, hholds, hb⟩
    · obtain rfl : room = limit := by omega
      have hdiffers := differs_survey hb b'
      show Framed ([] ++ [.field "blocks", .index i]) _ _ _ _
      exact hdiffers.framed (clear_survey v)
    · obtain rfl : above = level := by omega
      have hresolve : v.resolve? outer = some (.object block) := houter.resolve?_eq nofun
      have hput : v.put (outer ++ inner) b' = v.put outer ((Value.object block).put inner b') :=
        Value.put_append hresolve inner b'
      have hroom : room + 1 + above = limit + 1 := by omega
      have hblock := ih houter hroom ((Value.object block).put inner b')
      have hinner : Framed (outer ++ inner) (Block.diagnostics limit room (outer ++ inner, b))
          (Block.diagnostics limit room (outer ++ inner, b'))
          (Block.diagnostics limit (room + 1) (outer, .object block))
          (Block.diagnostics limit (room + 1) (outer, (Value.object block).put inner b')) :=
        (hholds.differs hb b').framed (Block.clear_survey (.object block))
      rw [hput]
      exact hinner.trans hblock (List.prefix_append outer inner)

/-- **`errors_replace_block`** -- when another node is put where a block stands that the walk
reaches, the two reports are the same but for a run of diagnostics in each, which are those at and
under the place. If the block is too deep, the reports are the same altogether. -/
theorem Validator.errors_replace_block (validator : Validator) {v b : Value} {level : Nat}
    {place : Path} (hstands : Stands v (.block level) place b)
    (hlevel : level ≤ validator.limit + 1) (b' : Value) :
    (v.put place b').resolve? place = some b'
      ∧ (∀ other, Path.Apart place other → (v.put place b').resolve? other = v.resolve? other)
      ∧ (∃ before run run' after : List Diagnostic,
        (validator.report v).errors = before ++ run ++ after
        ∧ (validator.report (v.put place b')).errors = before ++ run' ++ after
        ∧ (∀ d ∈ run, place <+: d.path) ∧ (∀ d ∈ run', place <+: d.path)
        ∧ ∀ d ∈ before ++ after, ¬place <+: d.path)
      ∧ (level = validator.limit + 1 →
        (validator.report (v.put place b')).errors = (validator.report v).errors) := by
  have hroom : validator.limit + 1 - level + level = validator.limit + 1 := by omega
  have hframed := Chapter.framed_block hstands hroom b'
  refine ⟨Value.resolve?_put (hstands.resolve?_eq nofun), ?_, ?_, ?_⟩
  · intro other happart
    exact Value.resolve?_put_of_apart happart
  · obtain ⟨before, after, h⟩ := hframed
    exact ⟨before, _, _, after, h⟩
  · intro hstop
    -- Without room, the two runs are one and the same diagnostic.
    have hzero : validator.limit + 1 - level = 0 := by omega
    rw [hzero] at hframed
    exact hframed.eq

/-- A listing without content. -/
def emptyListing : Value :=
  .object [("type", .string "code")]

/-- A list without a style, with a `null` and a listing in its only item. -/
def unstyledList : Members :=
  [("items", .array [.array [.null, emptyListing]]), ("type", .string "list")]

/-- A chapter that holds the list and lacks all other fields. -/
def listedListing : Value :=
  .object [("blocks", .array [.object unstyledList])]

/-- With two levels, a quote in the place of the listing is told of instead, and nothing else
changes; with one level, nothing changes. -/
theorem Validator.errors_replace_block_listing :
    Stands listedListing (.block 2)
        [.field "blocks", .index 0, .field "items", .index 0, .index 1] emptyListing
      ∧ 2 ≤ (withDepth 2 (by decide)).limit + 1 ∧ 2 ≤ (withDepth 1 (by decide)).limit + 1
      ∧ (∃ before run run' after : List Diagnostic,
        ((withDepth 2 (by decide)).report listedListing).errors = before ++ run ++ after
        ∧ ((withDepth 2 (by decide)).report
            (listedListing.put [.field "blocks", .index 0, .field "items", .index 0, .index 1]
              (.object [("type", .string "blockquote")]))).errors = before ++ run' ++ after
        ∧ (∀ d ∈ run, [.field "blocks", .index 0, .field "items", .index 0, .index 1] <+: d.path)
        ∧ (∀ d ∈ run', [.field "blocks", .index 0, .field "items", .index 0, .index 1] <+: d.path)
        ∧ ∀ d ∈ before ++ after,
          ¬[.field "blocks", .index 0, .field "items", .index 0, .index 1] <+: d.path)
      ∧ ((withDepth 1 (by decide)).report
            (listedListing.put [.field "blocks", .index 0, .field "items", .index 0, .index 1]
              (.object [("type", .string "blockquote")]))).errors
          = ((withDepth 1 (by decide)).report listedListing).errors := by
  have hstands : Stands listedListing (.block 2)
      [.field "blocks", .index 0, .field "items", .index 0, .index 1] emptyListing := by
    have hlist : Stands listedListing (.block 1) [.field "blocks", .index 0]
        (.object unstyledList) := .top rfl
    have hnamed : Named unstyledList "list" := rfl
    exact (hlist.step (.list hnamed) rfl).step .listItem rfl
  have hwithin : 2 ≤ (withDepth 2 (by decide)).limit + 1 := by decide
  have hstop : 2 ≤ (withDepth 1 (by decide)).limit + 1 := by decide
  have hreplaced :=
    errors_replace_block _ hstands hwithin (.object [("type", .string "blockquote")])
  have hstopped := errors_replace_block _ hstands hstop (.object [("type", .string "blockquote")])
  exact ⟨hstands, hwithin, hstop, hreplaced.2.2.1, hstopped.2.2.2 rfl⟩

end ChapterCheck
