/-
# ChapterCheck.Proofs.Relevance -- what a report depends on

`Role.reads` lists, for every object of a chapter, the keys that its contract names and how each of
them is read (`Reading`): for what it holds, for being there, or for an integer. An object that is
`Retouched` is the same as far as that list goes, and anything else about it may have changed.

`Chapter.Edit` retouches one object, at any depth. The main statement is
`Validator.report_eq_of_edits`: no number of edits changes the report.
-/
import ChapterCheck.Proofs.Frame
import ChapterCheck.Validator
import Mathlib.Logic.Relation

namespace ChapterCheck

open Json Grammar

/-! ## What contracts read -/

/-- How a contract reads what stands under a key. -/
inductive Reading where
  /-- For what it holds. -/
  | content
  /-- For being there, `null` included. -/
  | presence
  /-- For being an integer, whichever. -/
  | integer
  deriving DecidableEq, Repr

/-- **`Reading.Same`** -- a reading cannot tell what stands under a key before from what does
after. -/
def Reading.Same : Reading → Option Value → Option Value → Prop
  | .content, before, after => after = before
  | .presence, before, after => after.isSome = before.isSome
  | .integer, before, after => after = before
    ∨ ∃ m n, before = some (.number (.integer m)) ∧ after = some (.number (.integer n))

/-- The keys that the contract of a kind names besides `type`. -/
def BlockKind.reads : BlockKind → List (String × Reading)
  | .heading => [("level", .integer), ("text", .presence), ("anchor", .presence)]
  | .paragraph => [("inlines", .content)]
  | .list => [("listType", .content), ("items", .content)]
  | .table => [("rows", .content)]
  | .blockquote => [("blocks", .content)]
  | .engineQuote => [("engine", .content), ("title", .content), ("blocks", .content)]
  | .callout => [("tone", .content), ("blocks", .content)]
  | .kpiGrid => [("items", .content)]
  | .widget =>
    [("widgetId", .presence), ("widgetType", .presence), ("data", .presence),
      ("dataRef", .presence)]
  | .code => [("content", .presence)]
  | .math => [("latex", .presence)]
  | .figure => [("img", .content)]

/-- **`Role.reads`** -- the keys that the contract of an object names. Of a block that is of no
kind, and of one that the quote of an engine must not hold, nothing but the `type` is read; an item
of a list is no object. -/
def Role.reads : Role → Members → List (String × Reading)
  | .chapter, _ =>
    [("chapterId", .presence), ("title", .presence), ("anchor", .presence), ("order", .presence),
      ("blocks", .content)]
  | .block _, owner => ("type", .content) :: ((Block.kind? owner).map BlockKind.reads).getD []
  | .listItem _, _ => []
  | .row _, _ => [("cells", .content)]
  | .cell _, _ => [("blocks", .content)]
  | .quotedBlock, owner =>
    ("type", .content) ::
      if Block.kind? owner = some .paragraph then [("inlines", .content)] else []
  | .keyFigure, _ => [("label", .presence), ("value", .presence)]
  | .image, _ => [("src", .presence)]
  | .run _, _ => [("text", .presence), ("marks", .content)]
  | .mark _, _ => [("type", .content)]

/-- Members that are the same as far as some keys are read. -/
def Json.Members.SameFor (reads : List (String × Reading)) (before after : Members) : Prop :=
  ∀ entry ∈ reads, entry.2.Same (before.get? entry.1) (after.get? entry.1)

/-- **`Retouched`** -- the members of an object before and after something was changed that its
contract does not name, or does not tell apart. -/
def Retouched (role : Role) (before after : Members) : Prop :=
  Members.SameFor (role.reads before) before after

section SameFor

variable {reads : List (String × Reading)} {before after : Members} {key : String}

theorem Json.Members.SameFor.get? (h : SameFor reads before after)
    (hkey : (key, .content) ∈ reads) : after.get? key = before.get? key :=
  h _ hkey

theorem Json.Members.SameFor.has (h : SameFor reads before after)
    (hkey : (key, .presence) ∈ reads) : after.has key = before.has key :=
  h _ hkey

/-- However a key is read, whether it is there is told apart. -/
theorem Reading.Same.isSome_eq {reading : Reading} {x y : Option Value} (h : reading.Same x y) :
    y.isSome = x.isSome := by
  cases reading with
  | content => exact congrArg Option.isSome h
  | presence => exact h
  | integer =>
    rcases h with rfl | ⟨m, n, rfl, rfl⟩
    · rfl
    · rfl

theorem Survey.filled_of_sameFor (h : Members.SameFor reads before after)
    (hkey : (key, .content) ∈ reads) (check : Value → Survey) :
    filled after key check = filled before key check := by
  rw [filled, filled, h.get? hkey]

theorem Survey.word_of_sameFor (α : Type) [Tagged α] (h : Members.SameFor reads before after)
    (hkey : (key, .content) ∈ reads) : word α after key = word α before key := by
  rw [word, word, h.get? hkey]

theorem Survey.require_of_sameFor (h : Members.SameFor reads before after)
    (hkey : (key, .presence) ∈ reads) : require after key = require before key := by
  rw [require, require, h.has hkey]

theorem Block.integer_of_sameFor (h : Members.SameFor reads before after)
    (hkey : (key, .integer) ∈ reads) : integer after key = integer before key := by
  have hsame : Reading.integer.Same (before.get? key) (after.get? key) := h _ hkey
  rcases hsame with heq | ⟨m, n, hbefore, hafter⟩
  · rw [integer, integer, heq]
  · rw [integer, integer, hbefore, hafter]

end SameFor

/-! ## One object -/

/-- A contract finds the same in members that are the same as far as it reads them. -/
theorem Block.contract_of_sameFor {before after : Members} (kind : BlockKind)
    (h : Members.SameFor kind.reads before after) :
    contract after kind = contract before kind := by
  cases kind with
  | heading =>
    rw [contract, contract, integer_of_sameFor h (by decide),
      Survey.require_of_sameFor h (by decide), Survey.require_of_sameFor h (by decide)]
  | paragraph => exact Survey.filled_of_sameFor h (by decide) _
  | list =>
    rw [contract, contract, Survey.word_of_sameFor _ h (by decide),
      Survey.filled_of_sameFor h (by decide)]
  | table => exact Survey.filled_of_sameFor h (by decide) _
  | blockquote => exact Survey.filled_of_sameFor h (by decide) _
  | engineQuote =>
    have hengine : after.get? "engine" = before.get? "engine" := h.get? (by decide)
    have htitle : after.get? "title" = before.get? "title" := h.get? (by decide)
    rw [contract, contract, Survey.filled_of_sameFor h (by decide), engineSurvey, engineSurvey,
      engine?, engine?, hengine, htitle]
  | callout =>
    rw [contract, contract, Survey.word_of_sameFor _ h (by decide),
      Survey.filled_of_sameFor h (by decide)]
  | kpiGrid => exact Survey.filled_of_sameFor h (by decide) _
  | widget =>
    have hdata : after.has "data" = before.has "data" := h.has (by decide)
    have href : after.has "dataRef" = before.has "dataRef" := h.has (by decide)
    rw [contract, contract, Survey.require_of_sameFor h (by decide),
      Survey.require_of_sameFor h (by decide), hdata, href]
  | code => exact Survey.require_of_sameFor h (by decide)
  | math => exact Survey.require_of_sameFor h (by decide)
  | figure =>
    have himg : after.get? "img" = before.get? "img" := h.get? (by decide)
    rw [contract, contract, himg]

section Retouched

variable {before after : Members}

theorem Retouched.kind?_eq {level : Nat} (h : Retouched (.block level) before after) :
    Block.kind? after = Block.kind? before := by
  have htype : after.get? "type" = before.get? "type" := h.get? List.mem_cons_self
  rw [Block.kind?, Block.kind?, htype]

theorem Retouched.block_survey_eq {level : Nat} (h : Retouched (.block level) before after) :
    Block.survey (.object after) = Block.survey (.object before) := by
  have htype : after.get? "type" = before.get? "type" := h.get? List.mem_cons_self
  rw [Block.survey, Block.survey, Survey.object, Survey.object, h.kind?_eq]
  cases hkind : Block.kind? before with
  | none =>
    show Survey.atField "type" _ = Survey.atField "type" _
    rw [htype]
  | some kind =>
    apply Block.contract_of_sameFor
    intro entry hentry
    refine h entry (List.mem_cons_of_mem _ ?_)
    rw [hkind]
    exact hentry

theorem Retouched.quotedParagraph_eq (h : Retouched .quotedBlock before after) :
    Block.quotedParagraph (.object after) = Block.quotedParagraph (.object before) := by
  have htype : after.get? "type" = before.get? "type" := h.get? List.mem_cons_self
  rw [Block.quotedParagraph, Block.quotedParagraph, Survey.object, Survey.object, htype]
  by_cases hkind : Block.kind? before = some .paragraph
  · have hinlines : ("inlines", Reading.content) ∈ Role.quotedBlock.reads before := by
      rw [Role.reads, if_pos hkind]
      decide
    exact congrArg (ite _ · _) (Survey.filled_of_sameFor h hinlines _)
  · exact (if_neg hkind).trans (if_neg hkind).symm

theorem Retouched.run_survey_eq {quoted : Bool} (h : Retouched (.run quoted) before after) :
    Run.survey (.object after) = Run.survey (.object before) := by
  have hmarks : after.get? "marks" = before.get? "marks" := h.get? (by simp [Role.reads])
  show Survey.require after "text" ++ Run.marksSurvey after
    = Survey.require before "text" ++ Run.marksSurvey before
  rw [Survey.require_of_sameFor h (by simp [Role.reads]), Run.marksSurvey, Run.marksSurvey, hmarks]

theorem Retouched.restriction_eq {quoted : Bool} (h : Retouched (.run quoted) before after)
    (allowed : List MarkKind) :
    Run.restriction allowed (.object after) = Run.restriction allowed (.object before) := by
  have hmarks : (Value.object after).field? "marks" = (Value.object before).field? "marks" :=
    h.get? (by simp [Role.reads])
  rw [Run.restriction, Run.restriction, hmarks]

theorem Retouched.mark_survey_eq {quoted : Bool} (h : Retouched (.mark quoted) before after) :
    Run.markSurvey (.object after) = Run.markSurvey (.object before) := by
  have htype : after.get? "type" = before.get? "type" := h.get? List.mem_cons_self
  rw [Run.markSurvey, Run.markSurvey, Survey.object, Survey.object, Run.markKind?, Run.markKind?,
    htype]

theorem Retouched.markRestriction_eq {quoted : Bool} (h : Retouched (.mark quoted) before after)
    (allowed : List MarkKind) :
    Run.markRestriction allowed (.object after) = Run.markRestriction allowed (.object before) := by
  have htype : after.get? "type" = before.get? "type" := h.get? List.mem_cons_self
  rw [Run.markRestriction, Run.markRestriction, Run.markKind?, Run.markKind?, htype]

theorem Retouched.chapter_survey_eq (h : Retouched .chapter before after) :
    Chapter.survey (.object after) = Chapter.survey (.object before) := by
  have hblocks : after.get? "blocks" = before.get? "blocks" := h.get? (by simp [Role.reads])
  have hkeys : ∀ key ∈ Chapter.header, after.has key = before.has key := by
    intro key hkey
    obtain ⟨reading, hread⟩ : ∃ reading, (key, reading) ∈ Role.chapter.reads before := by
      simpa [Role.reads, Chapter.header, exists_or] using hkey
    exact (h _ hread).isSome_eq
  have hheader : Chapter.headerSurvey after = Chapter.headerSurvey before := by
    rw [Chapter.headerSurvey, Chapter.headerSurvey, List.flatMap_def, List.flatMap_def]
    congr 1
    refine List.map_congr_left fun key hkey => ?_
    rw [hkeys key hkey]
  rw [Chapter.survey, Chapter.survey, hheader, Chapter.blocksSurvey, Chapter.blocksSurvey, hblocks]

/-- **`look_eq`** -- a look at an object that was retouched finds what it found before. -/
theorem Retouched.look_eq {role : Role} (h : Retouched role before after) :
    role.look (.object after) = role.look (.object before) := by
  cases role with
  | chapter => exact h.chapter_survey_eq
  | block level => exact h.block_survey_eq
  | listItem => rfl
  | row => exact Survey.filled_of_sameFor h (by simp [Role.reads]) _
  | cell => exact Survey.filled_of_sameFor h (by simp [Role.reads]) _
  | quotedBlock => exact h.quotedParagraph_eq
  | keyFigure =>
    have hlabel : after.has "label" = before.has "label" := h.has (by simp [Role.reads])
    have hvalue : after.has "value" = before.has "value" := h.has (by simp [Role.reads])
    show Block.keyFigure _ = Block.keyFigure _
    rw [Block.keyFigure, Block.keyFigure, Survey.object, Survey.object, hlabel, hvalue]
  | image => exact Survey.require_of_sameFor h (by simp [Role.reads])
  | run quoted =>
    cases quoted with
    | false => exact h.run_survey_eq
    | true =>
      show Run.survey _ ++ Run.restriction _ _ = Run.survey _ ++ Run.restriction _ _
      rw [h.run_survey_eq, h.restriction_eq]
  | mark quoted => exact h.mark_survey_eq

end Retouched

/-! ## The whole chapter -/

/-- Surveys that are told alike, from any node and with any room. -/
def Survey.ToldAlike (s s' : Survey) : Prop :=
  ∀ limit room base, s'.diagnose limit room base = s.diagnose limit room base

theorem Survey.ToldAlike.of_eq {s s' : Survey} (h : s' = s) : ToldAlike s s' :=
  fun _ _ _ => by rw [h]

/-- Surveys that differ in a part are told alike if the parts are. -/
theorem Survey.Differs.toldAlike {inner : Path} {part part' s s' : Survey}
    (h : Differs inner part part' s s') (hpart : ToldAlike part part') : ToldAlike s s' := by
  obtain ⟨before, after, rfl, rfl⟩ := h
  intro limit room base
  simp only [diagnose_append, diagnose_under, hpart limit room (base ++ inner)]

/-- Blocks in which a look finds what is told alike are told alike. -/
theorem Survey.toldAlike_block {b b' : Value} (h : ToldAlike (Block.survey b) (Block.survey b')) :
    ToldAlike (Survey.block b) (Survey.block b') := by
  intro limit room base
  cases room with
  | zero => rfl
  | succ room =>
    show List.flatMap _ [_] = List.flatMap _ [_]
    rw [List.flatMap_singleton, List.flatMap_singleton, Finding.diagnose_block_succ,
      Finding.diagnose_block_succ]
    exact h limit room _

theorem Role.toldAlike_share {role : Role} {w w' : Value}
    (h : Survey.ToldAlike (role.look w) (role.look w')) :
    Survey.ToldAlike (role.share w) (role.share w') := by
  cases role with
  | block => exact Survey.toldAlike_block h
  | _ => exact h

/-- **`toldAlike_put`** -- a chapter is told alike when a node of it gives way to another in which
a look finds the same. -/
theorem Chapter.toldAlike_put {v w w' : Value} {role : Role} {place : Path}
    (hstands : Stands v role place w) (hrole : role ≠ .chapter)
    (hmark : ∀ quoted, role ≠ .mark quoted) (h : Survey.ToldAlike (role.look w) (role.look w')) :
    Survey.ToldAlike (survey v) (survey (v.put place w')) := by
  -- By induction on the way down: the node above gives way to one that holds the new node.
  induction hstands generalizing w' with
  | chapter => exact absurd rfl hrole
  | top hb => exact (differs_survey hb w').toldAlike (Survey.toldAlike_block h)
  | @step above next outer steps u w habove hleads hw ih =>
    have hput : v.put (outer ++ steps) w' = v.put outer (u.put steps w') :=
      Value.put_append (habove.resolve?_eq (by rintro rfl; cases hleads)) steps w'
    have hlook : Survey.ToldAlike (above.look u) (above.look (u.put steps w')) :=
      (hleads.differs hmark hw w').toldAlike (Role.toldAlike_share h)
    rw [hput]
    exact ih (by rintro rfl; cases hleads) (by rintro _ rfl; cases hleads) hlook

/-! ## Marks -/

theorem Survey.each_modify_eq {items : List Value} {i : Nat} {u new : Value}
    {check : Value → Survey} (hu : items[i]? = some u) (h : check new = check u) :
    each check (items.modify i fun _ => new) = each check items := by
  have hdiffers : Differs [.index i] (check u) (check new) (each check items)
      (each check (items.modify i fun _ => new)) := differs_each hu new
  obtain ⟨before, after, hold, hnew⟩ := hdiffers
  rw [hold, hnew, h]

section Marks

variable {run : Members} {marks : List Value} {k : Nat} {u new : Value}

theorem Run.survey_putItem (hmarks : run.get? "marks" = some (.array marks))
    (hu : marks[k]? = some u) (h : markSurvey new = markSurvey u) :
    survey (.object (Members.putItem "marks" k new run)) = survey (.object run) := by
  have heach : Survey.each markSurvey (marks.modify k fun _ => new)
      = Survey.each markSurvey marks := Survey.each_modify_eq hu h
  show Survey.require _ "text" ++ marksSurvey _ = Survey.require run "text" ++ marksSurvey run
  rw [Survey.require, Survey.require, Members.has_putItem, marksSurvey, marksSurvey,
    Members.get?_putItem hmarks, hmarks]
  exact congrArg (_ ++ Survey.under [.field "marks"] ·) heach

theorem Run.restriction_putItem {allowed : List MarkKind}
    (hmarks : run.get? "marks" = some (.array marks)) (hu : marks[k]? = some u)
    (h : markRestriction allowed new = markRestriction allowed u) :
    restriction allowed (.object (Members.putItem "marks" k new run))
      = restriction allowed (.object run) := by
  have hnew : (Value.object (Members.putItem "marks" k new run)).field? "marks"
      = some (.array (marks.modify k fun _ => new)) := Members.get?_putItem hmarks k new
  have hold : (Value.object run).field? "marks" = some (.array marks) := hmarks
  rw [restriction, restriction, hnew, hold]
  exact congrArg (Survey.under [.field "marks"]) (Survey.each_modify_eq hu h)

end Marks

/-- A mark of a run that was retouched is looked at twice, and both times the same is found. -/
theorem Retouched.run_look_eq {quoted : Bool} {before after run : Members} {marks : List Value}
    {k : Nat} (h : Retouched (.mark quoted) before after)
    (hmarks : run.get? "marks" = some (.array marks)) (hk : marks[k]? = some (.object before)) :
    (Role.run quoted).look (.object (Members.putItem "marks" k (.object after) run))
      = (Role.run quoted).look (.object run) := by
  have hsurvey := Run.survey_putItem hmarks hk h.mark_survey_eq
  cases quoted with
  | false => exact hsurvey
  | true =>
    show Run.survey _ ++ Run.restriction _ _ = Run.survey _ ++ Run.restriction _ _
    rw [hsurvey, Run.restriction_putItem hmarks hk (h.markRestriction_eq _)]

/-! ## Edits -/

/-- **`Chapter.Edit`** -- one object of a chapter is retouched: the chapter itself, or one that
stands anywhere below. -/
inductive Chapter.Edit : Value → Value → Prop
  | chapter {before after : Members} : Retouched .chapter before after →
      Edit (.object before) (.object after)
  | node {v : Value} {role : Role} {place : Path} {before after : Members} :
      Stands v role place (.object before) → role ≠ .chapter → Retouched role before after →
      Edit v (v.put place (.object after))

/-- A chapter is told alike before and after an edit. -/
theorem Chapter.Edit.toldAlike {v v' : Value} (h : Edit v v') :
    Survey.ToldAlike (survey v) (survey v') := by
  cases h with
  | chapter h => exact .of_eq h.chapter_survey_eq
  | @node _ role place before after hstands hrole h =>
    by_cases hmark : ∃ quoted, role = .mark quoted
    · -- A mark is part of its run, which is looked at as a whole.
      obtain ⟨quoted, rfl⟩ := hmark
      cases hstands with
      | @step _ _ outer steps run _ hrun hleads hsteps =>
        cases hleads with
        | @run _ k =>
          obtain ⟨members, marks, rfl, hget, hk⟩ := exists_items_of_resolve? hsteps
          rw [Value.put_append (hrun.resolve?_eq nofun)]
          exact toldAlike_put hrun nofun nofun (.of_eq (h.run_look_eq hget hk))
    · exact toldAlike_put hstands hrole (fun quoted hquoted => hmark ⟨quoted, hquoted⟩)
        (.of_eq h.look_eq)

/-- An edit does not change what is told. -/
theorem Chapter.Edit.diagnostics_eq {v v' : Value} (h : Edit v v') (limit : Nat) :
    diagnostics limit v' = diagnostics limit v :=
  h.toldAlike limit limit []

/-- **`report_eq_of_edits`** -- the report depends on nothing but what the contracts read: however
many objects of a chapter are retouched, and however deep they stand, the report is the same. -/
theorem Validator.report_eq_of_edits (validator : Validator) {v v' : Value}
    (h : Relation.ReflTransGen Chapter.Edit v v') : validator.report v' = validator.report v := by
  induction h with
  | refl => rfl
  | tail _ hedit ih => rw [← ih, report, report, hedit.diagnostics_eq]

/-- A widget without a type and with nothing for data. -/
def emptyWidget : Members :=
  [("data", .null), ("type", .string "widget"), ("widgetId", .string "w")]

/-- The same widget with a block for data, and with blocks that are none. -/
def loadedWidget : Members :=
  [("blocks", .array [.null]), ("data", .object [("type", .string "code")]),
    ("type", .string "widget"), ("widgetId", .null)]

/-- A chapter that holds a widget in a callout without a tone. -/
def widgetChapter (widget rest : Members) : Value :=
  .object (("blocks", .array [.object [("blocks", .array [.object widget]),
    ("type", .string "callout")]]) :: rest)

/-- Two edits, of the widget and of the chapter: a payload that looks like a block is not looked
at, nor are blocks where none belong. -/
theorem Validator.report_eq_of_edits_widget :
    Relation.ReflTransGen Chapter.Edit (widgetChapter emptyWidget [("chapterId", .string "c")])
        (widgetChapter loadedWidget [("chapterId", .null), ("remark", .bool true)])
      ∧ (withDepth 2 (by decide)).report
            (widgetChapter loadedWidget [("chapterId", .null), ("remark", .bool true)])
          = (withDepth 2 (by decide)).report
            (widgetChapter emptyWidget [("chapterId", .string "c")]) := by
  have hcallout : Stands (widgetChapter emptyWidget [("chapterId", .string "c")]) (.block 1)
      [.field "blocks", .index 0]
      (.object [("blocks", .array [.object emptyWidget]), ("type", .string "callout")]) := .top rfl
  have hwidget : Stands (widgetChapter emptyWidget [("chapterId", .string "c")]) (.block 2)
      [.field "blocks", .index 0, .field "blocks", .index 0] (.object emptyWidget) :=
    hcallout.step (.callout rfl) rfl
  have hloaded : Retouched (.block 2) emptyWidget loadedWidget := by
    have hreads : (Role.block 2).reads emptyWidget = ("type", .content) :: BlockKind.widget.reads :=
      rfl
    rw [Retouched, hreads]
    simp [Members.SameFor, BlockKind.reads, Reading.Same, emptyWidget, loadedWidget,
      Members.get?_cons]
  have hheader : Retouched .chapter
      (("blocks", .array [.object [("blocks", .array [.object loadedWidget]),
        ("type", .string "callout")]]) :: [("chapterId", .string "c")])
      (("blocks", .array [.object [("blocks", .array [.object loadedWidget]),
        ("type", .string "callout")]]) :: [("chapterId", .null), ("remark", .bool true)]) := by
    simp [Retouched, Members.SameFor, Role.reads, Reading.Same, Members.get?_cons]
  have hedits := (Relation.ReflTransGen.single (Chapter.Edit.node hwidget nofun hloaded)).tail
    (.chapter hheader)
  exact ⟨hedits, report_eq_of_edits _ hedits⟩

end ChapterCheck
