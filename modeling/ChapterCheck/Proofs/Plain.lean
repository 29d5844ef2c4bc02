/-
# ChapterCheck.Proofs.Plain -- the defects that a look finds

The defects that a look at a block finds are `Plain`: each is told by the written path and a clause
behind it, and none is a matter of depth (`Block.plain_survey`). What is too deep, the walk finds
itself; what is told the other way round, the header of a chapter alone.

A property of findings is `Stable` if plain defects have it and it does not ask where the node
stands. What is stable holds of all that a look finds, blocks aside, and the four kinds that hold
blocks are the only ones that have any (`Block.all_contract`).
-/
import ChapterCheck.Proofs.Findings

namespace ChapterCheck

open Json

/-! ## Plain defects -/

/-- A **`Plain`** defect -- it is told by its place and a clause, and it is not one of depth. -/
def Defect.Plain : Defect → Prop
  | .headerAbsent => False
  | .tooDeep _ => False
  | _ => True

theorem Defect.Plain.ne_headerAbsent {what : Defect} (h : what.Plain) : what ≠ .headerAbsent := by
  rintro rfl
  exact h

/-- All defects but those of the header are told by their place and a clause. -/
theorem Defect.message_eq {what : Defect} (h : what ≠ .headerAbsent) (place : Path) :
    what.message place = place.render ++ " " ++ what.clause := by
  cases what with
  | headerAbsent => exact absurd rfl h
  | _ => rfl

theorem Defect.Plain.message_eq {what : Defect} (h : what.Plain) (place : Path) :
    what.message place = place.render ++ (" " ++ what.clause) := by
  rw [Defect.message_eq h.ne_headerAbsent, String.append_assoc]

theorem Defect.Plain.kind_ne {what : Defect} (h : what.Plain) : what.kind ≠ .tooDeep := by
  cases what with
  | tooDeep limit => exact h.elim
  | notInteger present => cases present <;> decide
  | _ => exact nofun

/-- A clause that shows something of the chapter behind its words is told in one with its place. -/
theorem Defect.diagnostic_of_clause {what : Defect} (h : what ≠ .headerAbsent)
    {words shown : String} (hclause : what.clause = words ++ shown) (place : Path) :
    what.diagnostic place = ⟨what.kind, place, place.render ++ (" " ++ words) ++ shown⟩ := by
  rw [diagnostic, message_eq h, hclause]
  simp only [String.append_assoc]

/-- How a block that is too deep is told. -/
theorem Defect.diagnostic_tooDeep (limit : Nat) (place : Path) :
    (Defect.tooDeep limit).diagnostic place
      = ⟨.tooDeep, place,
        place.render ++ " exceeds maximum nesting depth of " ++ Nat.repr limit⟩ := by
  have hne : Defect.tooDeep limit ≠ .headerAbsent := nofun
  have hclause : (Defect.tooDeep limit).clause
      = "exceeds maximum nesting depth of " ++ Nat.repr limit := rfl
  rw [diagnostic_of_clause hne hclause]
  rfl

/-! ## Stable properties -/

/-- A property of findings that is **`Stable`**. -/
structure Finding.Stable (P : Finding → Prop) : Prop where
  /-- Plain defects have it. -/
  plain : ∀ {place : Path} {what : Defect}, what.Plain → P (.defect place what)
  /-- It does not ask where the node stands. -/
  under : ∀ {f : Finding} (base : Path), P f → P (f.under base)

/-- Blocks aside, a plain finding is a plain defect. -/
def Finding.Plain : Finding → Prop
  | .defect _ what => what.Plain
  | .block _ _ => True

theorem Finding.stable_plain : Stable Finding.Plain where
  plain h := h
  under := by
    intro f base h
    cases f <;> exact h

/-- A finding that is no block. -/
def Finding.IsDefect : Finding → Prop
  | .defect _ _ => True
  | .block _ _ => False

theorem Finding.stable_isDefect : Stable Finding.IsDefect where
  plain _ := trivial
  under := by
    intro f base h
    cases f <;> exact h

namespace Survey

variable {P : Finding → Prop} {owner : Members} {key : String} {check : Value → Survey}

/-- A survey all of whose findings have a property. -/
def All (P : Finding → Prop) (s : Survey) : Prop :=
  ∀ f ∈ s, P f

theorem all_nil : All P [] :=
  nofun

theorem all_append {s t : Survey} : All P (s ++ t) ↔ All P s ∧ All P t :=
  List.forall_mem_append

theorem all_block (h : ∀ place v, P (.block place v)) (v : Value) : All P (Survey.block v) :=
  List.forall_mem_singleton.mpr (h [] v)

variable (hP : Finding.Stable P)

include hP

theorem all_under {s : Survey} (h : All P s) (base : Path) : All P (Survey.under base s) := by
  intro f hf
  obtain ⟨g, hg, rfl⟩ := mem_under.mp hf
  exact hP.under base (h g hg)

theorem all_here {what : Defect} (h : what.Plain) : All P (here what) :=
  List.forall_mem_singleton.mpr (hP.plain h)

theorem all_atField {what : Defect} (h : what.Plain) : All P (atField key what) :=
  List.forall_mem_singleton.mpr (hP.plain h)

theorem all_require (owner : Members) (key : String) : All P (require owner key) := by
  intro f hf
  obtain ⟨-, rfl⟩ := mem_require.mp hf
  exact hP.plain trivial

theorem all_word (α : Type) [Tagged α] (owner : Members) (key : String) :
    All P (word α owner key) := by
  intro f hf
  obtain ⟨-, rfl⟩ := mem_word.mp hf
  exact hP.plain trivial

theorem all_each (h : ∀ v, All P (check v)) (items : List Value) : All P (each check items) := by
  intro f hf
  obtain ⟨place, v, -, g, hg, rfl⟩ := mem_each.mp hf
  exact hP.under _ (h v g hg)

theorem all_filled (h : ∀ v, All P (check v)) : All P (filled owner key check) := by
  rcases filled_cases owner key check with ⟨items, -, -, heq⟩ | ⟨-, heq⟩
  · rw [heq]
    exact all_under hP (all_each hP h items) _
  · rw [heq]
    exact all_atField hP trivial

theorem all_object {v : Value} {check : Members → Survey}
    (h : ∀ members, All P (check members)) : All P (object v check) := by
  rcases object_cases v check with ⟨members, -, heq⟩ | ⟨-, heq⟩
  · rw [heq]
    exact h members
  · rw [heq]
    exact all_here hP trivial

end Survey

open Survey

/-! ## Runs and blocks -/

section Stable

variable {P : Finding → Prop} (hP : Finding.Stable P)

include hP

namespace Run

theorem all_markSurvey (v : Value) : All P (markSurvey v) := by
  refine all_object hP fun mark => ?_
  split
  · exact all_nil
  · exact all_atField hP trivial

theorem all_survey (v : Value) : All P (survey v) := by
  refine all_object hP fun run => all_append.mpr ⟨all_require hP run "text", ?_⟩
  unfold marksSurvey
  split
  · exact all_nil
  · exact all_nil
  · exact all_under hP (all_each hP (all_markSurvey hP) _) _
  · exact all_atField hP trivial

theorem all_markRestriction (allowed : List MarkKind) (v : Value) :
    All P (markRestriction allowed v) := by
  unfold markRestriction
  split
  · split
    · exact all_nil
    · exact all_atField hP trivial
  · exact all_nil

theorem all_quotedSurvey (v : Value) : All P (quotedSurvey v) := by
  refine all_append.mpr ⟨all_survey hP v, ?_⟩
  unfold restriction
  split
  · exact all_under hP (all_each hP (all_markRestriction hP quotedMarks) _) _
  · exact all_nil

end Run

namespace Block

theorem all_integer (owner : Members) (key : String) : All P (integer owner key) := by
  unfold integer
  split
  · exact all_nil
  · exact all_atField hP trivial
  · exact all_atField hP trivial

theorem all_keyFigure (v : Value) : All P (keyFigure v) := by
  refine all_object hP fun item => ?_
  split
  · exact all_nil
  · exact all_here hP trivial

theorem all_engineSurvey (quote : Members) : All P (engineSurvey quote) := by
  unfold engineSurvey
  split
  · exact all_nil
  · exact all_atField hP trivial

theorem all_titleSurvey (engine : Option Engine) (title : Option Value) :
    All P (titleSurvey engine title) := by
  unfold titleSurvey
  split
  · exact all_atField hP trivial
  · exact all_atField hP trivial
  · split
    · split
      · exact all_nil
      · exact all_atField hP trivial
    · exact all_nil
  · exact all_atField hP trivial

theorem all_quotedParagraph (v : Value) : All P (quotedParagraph v) := by
  refine all_object hP fun block => ?_
  split
  · exact all_filled hP (Run.all_quotedSurvey hP)
  · exact all_atField hP trivial

theorem all_listItem (hblock : ∀ place v, P (.block place v)) (v : Value) :
    All P (listItem v) := by
  unfold listItem
  split
  · exact all_each hP (all_block hblock) _
  · exact all_here hP trivial

theorem all_tableRow (hblock : ∀ place v, P (.block place v)) (v : Value) :
    All P (tableRow v) := by
  refine all_filled hP fun cell => ?_
  exact all_object hP fun _ => all_filled hP (all_block hblock)

end Block

end Stable

/-- The kinds that hold blocks of their own. -/
def BlockKind.HoldsBlocks : BlockKind → Prop
  | .list | .table | .blockquote | .callout => True
  | _ => False

namespace Block

/-- **`all_contract`** -- what is stable holds of all that a contract finds, if it holds of blocks
or the kind has none. -/
theorem all_contract {P : Finding → Prop} (hP : Finding.Stable P) {kind : BlockKind}
    (hblock : kind.HoldsBlocks → ∀ place v, P (.block place v)) (block : Members) :
    All P (contract block kind) := by
  cases kind with
  | heading =>
    refine all_append.mpr ⟨all_append.mpr ⟨all_integer hP block "level", ?_⟩, ?_⟩
    · exact all_require hP block "text"
    · exact all_require hP block "anchor"
  | paragraph => exact all_filled hP (Run.all_survey hP)
  | list =>
    refine all_append.mpr ⟨all_word hP ListStyle block "listType", ?_⟩
    exact all_filled hP (all_listItem hP (hblock trivial))
  | table => exact all_filled hP (all_tableRow hP (hblock trivial))
  | blockquote => exact all_filled hP (all_block (hblock trivial))
  | engineQuote =>
    refine all_append.mpr ⟨all_append.mpr ⟨all_engineSurvey hP block, ?_⟩, ?_⟩
    · exact all_titleSurvey hP _ _
    · exact all_filled hP (all_quotedParagraph hP)
  | callout =>
    refine all_append.mpr ⟨all_word hP Tone block "tone", ?_⟩
    exact all_filled hP (all_block (hblock trivial))
  | kpiGrid => exact all_filled hP (all_keyFigure hP)
  | widget =>
    refine all_append.mpr ⟨all_append.mpr ⟨all_require hP block "widgetId", ?_⟩, ?_⟩
    · exact all_require hP block "widgetType"
    · split
      · exact all_nil
      · exact all_here hP trivial
  | code => exact all_require hP block "content"
  | math => exact all_require hP block "latex"
  | figure =>
    rw [contract]
    split
    · exact all_under hP (all_require hP _ "src") _
    · exact all_atField hP trivial

/-- The other kinds have nothing but defects. -/
theorem isDefect_contract {kind : BlockKind} (h : ¬kind.HoldsBlocks) (block : Members) :
    All Finding.IsDefect (contract block kind) :=
  all_contract Finding.stable_isDefect (fun hkind => absurd hkind h) block

/-- A look at a block finds plain defects and blocks. -/
theorem plain_survey (v : Value) : All Finding.Plain (survey v) := by
  refine all_object Finding.stable_plain fun block => ?_
  split
  · exact all_contract Finding.stable_plain (fun _ _ _ => trivial) block
  · exact all_atField Finding.stable_plain trivial

end Block

namespace Chapter

theorem isDefect_headerSurvey (chapter : Members) :
    All Finding.IsDefect (headerSurvey chapter) := by
  intro f hf
  obtain ⟨key, -, hf⟩ := List.mem_flatMap.mp hf
  split at hf
  · cases hf
  · obtain rfl := mem_atField.mp hf
    trivial

theorem plain_blocksSurvey (chapter : Members) : All Finding.Plain (blocksSurvey chapter) := by
  rcases blocksSurvey_cases chapter with ⟨items, -, -, heq⟩ | ⟨-, heq⟩
  · have hblock : ∀ place v, Finding.Plain (.block place v) := fun _ _ => trivial
    rw [heq]
    exact all_under Finding.stable_plain (all_each Finding.stable_plain (all_block hblock) items) _
  · rw [heq]
    exact List.forall_mem_singleton.mpr trivial

/-- A look at a chapter finds nothing that is too deep. -/
theorem kind_ne_of_mem_survey {v : Value} {place : Path} {what : Defect}
    (h : .defect place what ∈ survey v) : what.kind ≠ .tooDeep := by
  cases v with
  | object chapter =>
    rcases List.mem_append.mp h with h | h
    · obtain ⟨f, hf, heq⟩ := mem_under.mp h
      obtain ⟨key, -, hf⟩ := List.mem_flatMap.mp hf
      split at hf
      · cases hf
      · obtain rfl := mem_atField.mp hf
        cases heq
        decide
    · exact Defect.Plain.kind_ne (plain_blocksSurvey chapter _ h)
  | _ =>
    cases List.mem_singleton.mp h
    decide

end Chapter

end ChapterCheck
