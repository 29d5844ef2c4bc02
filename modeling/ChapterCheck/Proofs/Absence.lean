/-
# ChapterCheck.Proofs.Absence -- how what is absent is told

A part of a chapter that lacks something it has to have is told as such, with the kind of a missing
field: `Lacks` lists what can be lacking, and where it is told. A field that has to hold a word is
not among them. What is absent there is taken for `null`, which is no word, and so it is told as a
value that is not allowed or as a type that is not known (`Names`).

Nor is a field that has to hold an array or an object (`Houses`). Where it is absent, that is told
as if it were there and held something else: once, as a wrong shape. Of any other node a wrong shape
is told only if it is there.

A look at a part is told in the report if the walk reaches the part (`Stands.told`); what else may
be told at the same place is known from the grounds of diagnostics (`Founded`).
-/
import Mathlib.Data.List.Nodup
import ChapterCheck.Proofs.Distinct
import ChapterCheck.Proofs.Engines
import ChapterCheck.Proofs.Founded

namespace ChapterCheck

open Json Grammar

/-! ## What can be absent -/

/-- **`Lacks`** -- the members of a node in a role lack something that is required, and the steps to
the place where that is told. -/
inductive Lacks : Role → Members → Path → Prop
  | key {role : Role} {owner : Members} {key : String} : Requires role owner key →
      owner.get? key = none → Lacks role owner [.field key]
  | keyFigure {item : Members} : item.get? "label" = none ∨ item.get? "value" = none →
      Lacks .keyFigure item []
  | widget {level : Nat} {block : Members} : Named block "widget" → block.get? "data" = none →
      block.get? "dataRef" = none → Lacks (.block level) block []

/-- **`Names`** -- a field of a node in a role has to hold a word, and the kind of what is told if
it does not. -/
inductive Names : Role → Members → String → DefectKind → Prop
  | block {level : Nat} {block : Members} : Names (.block level) block "type" .unknownType
  | mark {quoted : Bool} {mark : Members} : Names (.mark quoted) mark "type" .unknownType
  | quotedBlock {block : Members} : Names .quotedBlock block "type" .invalidValue
  | list {level : Nat} {block : Members} : Named block "list" →
      Names (.block level) block "listType" .invalidValue
  | callout {level : Nat} {block : Members} : Named block "callout" →
      Names (.block level) block "tone" .invalidValue
  | engineQuote {level : Nat} {block : Members} : Named block "engineQuote" →
      Names (.block level) block "engine" .invalidValue

/-- **`Houses`** -- a field of a node in a role has to hold an array of something or an object. -/
def Houses (role : Role) (w : Value) (key : String) : Prop :=
  Demands role w key .filledArray ∨ Demands role w key .object

/-- The keys of such fields. -/
def containerKeys : List String :=
  ["blocks", "items", "rows", "cells", "inlines", "img"]

/-- The keys of fields that have to hold words. -/
def wordKeys : List String :=
  ["type", "listType", "tone", "engine"]

/-- The keys of fields that have to be there. -/
def requiredKeys : List String :=
  ["chapterId", "title", "anchor", "order", "blocks", "level", "text", "widgetId", "widgetType",
    "content", "latex", "src"]

theorem Requires.mem_requiredKeys {role : Role} {owner : Members} {key : String}
    (h : Requires role owner key) : key ∈ requiredKeys := by
  have header :
      ∀ key ∈ ["chapterId", "title", "anchor", "order", "blocks"], key ∈ requiredKeys := by
    decide
  have heading : ∀ key ∈ ["level", "text", "anchor"], key ∈ requiredKeys := by decide
  have widget : ∀ key ∈ ["widgetId", "widgetType"], key ∈ requiredKeys := by decide
  cases h with
  | chapter hkey => exact header key hkey
  | heading _ hkey => exact heading key hkey
  | widget _ hkey => exact widget key hkey
  | _ => decide

theorem Names.mem_wordKeys {role : Role} {owner : Members} {key : String} {kind : DefectKind}
    (h : Names role owner key kind) : key ∈ wordKeys := by
  cases h <;> decide

/-! ## What is reached is told -/

/-- **`Chapter.Reached`** -- no block on the way to a place is below the limit. -/
def Chapter.Reached (limit : Nat) (v : Value) (place : Path) : Prop :=
  ∀ level outer b, Stands v (.block level) outer b → outer <+: place → level ≤ limit

section Told

variable {limit level : Nat} {v w b : Value} {role : Role} {place inner : Path}

/-- What a report has of a block that is not below the limit. -/
theorem Stands.isolated (h : Stands v (.block level) place b) (hlevel : level ≤ limit) :
    ∃ room, Isolated place (Block.diagnostics limit (room + 1) (place, b))
      (Chapter.diagnostics limit v) := by
  obtain ⟨room, rfl⟩ := Nat.exists_eq_add_of_le hlevel
  have hroom : room + 1 + level = level + room + 1 := by omega
  exact ⟨room, Chapter.isolated_block (Chapter.mem_blocksAt_iff.mpr h) hroom⟩

/-- Such a block is told by what a look at it finds. -/
theorem Stands.exists_room_block (h : Stands v (.block level) place b) (hlevel : level ≤ limit) :
    ∃ room, ∀ f ∈ Block.survey b, ∀ d ∈ f.diagnose limit room place,
      d ∈ Chapter.diagnostics limit v := by
  obtain ⟨room, before, after, heq, -⟩ := h.isolated hlevel
  refine ⟨room, ?_⟩
  intro f hf d hd
  rw [heq, Block.diagnostics_succ]
  refine List.mem_append_left _ (List.mem_append_right _ ?_)
  exact List.mem_flatMap.mpr ⟨f, hf, hd⟩

theorem Role.share_eq_look (h : ∀ level, role ≠ .block level) : role.share = role.look := by
  cases role with
  | block level => exact absurd rfl (h level)
  | _ => rfl

/-- So is every other part. -/
theorem Stands.exists_room (h : Stands v role place w) (hrole : role ≠ .chapter)
    (hreached : Chapter.Reached limit v place) :
    ∃ room, ∀ f ∈ role.look w, ∀ d ∈ f.diagnose limit room place,
      d ∈ Chapter.diagnostics limit v := by
  -- By induction on the way: a look at the node above finds what a look at the part does.
  induction h with
  | chapter => exact absurd rfl hrole
  | top hb => exact (Stands.top hb).exists_room_block (hreached _ _ _ (.top hb) List.prefix_rfl)
  | @step above next outer steps u x hstands hleads hsteps ih =>
    have hnext := hstands.step hleads hsteps
    by_cases hblock : ∃ level, next = .block level
    · obtain ⟨level, rfl⟩ := hblock
      exact hnext.exists_room_block (hreached _ _ _ hnext List.prefix_rfl)
    · have hupper : Chapter.Reached limit v outer := fun level place b hb hplace =>
        hreached level place b hb (hplace.trans (List.prefix_append outer steps))
      have habove : above ≠ .chapter := by
        rintro rfl
        cases hleads
      obtain ⟨room, htold⟩ := ih habove hupper
      refine ⟨room, ?_⟩
      intro f hf d hd
      have hshare : f ∈ next.share x := by
        rw [Role.share_eq_look fun level hlevel => hblock ⟨level, hlevel⟩]
        exact hf
      apply htold (f.under steps) (hleads.mem_look hsteps hshare)
      rw [Finding.diagnose_under]
      exact hd

/-- **`told`** -- a defect that a look at a part finds is told of the part, if it is reached. -/
theorem Stands.told {what : Defect} (h : Stands v role place w) (hrole : role ≠ .chapter)
    (hreached : Chapter.Reached limit v place) (hfound : .defect inner what ∈ role.look w) :
    IsTold (Chapter.diagnostics limit v) what.kind (place ++ inner) := by
  obtain ⟨room, htold⟩ := h.exists_room hrole hreached
  refine ⟨what.diagnostic (place ++ inner), htold _ hfound _ ?_, rfl, rfl⟩
  rw [Finding.diagnose_defect]
  exact List.mem_singleton_self _

end Told

/-! ## What a look finds of what is absent -/

section Found

variable {role : Role} {owner block : Members} {key : String} {inner : Path} {kind : DefectKind}

theorem Survey.absent_mem_require (h : owner.get? key = none) :
    .defect [.field key] .absent ∈ require owner key :=
  mem_require.mpr ⟨h, rfl⟩

/-- A finding of a contract is a finding of a block of that kind. -/
theorem Block.mem_survey (kind : BlockKind) {f : Finding} (hnamed : Named block (Tagged.tag kind))
    (hf : f ∈ contract block kind) : f ∈ survey (.object block) := by
  rw [survey_of_named hnamed]
  exact hf

theorem Requires.found (h : Requires role owner key) (hrole : role ≠ .chapter)
    (habsent : owner.get? key = none) :
    ∃ what, .defect [.field key] what ∈ role.look (.object owner) ∧ what.kind = .missingField := by
  have hrequire := Survey.absent_mem_require habsent
  cases h with
  | chapter => exact absurd rfl hrole
  | heading hnamed hkey =>
    simp only [List.mem_cons, List.not_mem_nil, or_false] at hkey
    rcases hkey with rfl | rfl | rfl
    · have hinteger :
          .defect [.field "level"] (.notInteger false) ∈ Block.integer owner "level" := by
        rw [Block.integer, habsent]
        exact Survey.mem_atField.mpr rfl
      refine ⟨.notInteger false, Block.mem_survey .heading hnamed ?_, rfl⟩
      exact List.mem_append_left _ (List.mem_append_left _ hinteger)
    · refine ⟨.absent, Block.mem_survey .heading hnamed ?_, rfl⟩
      exact List.mem_append_left _ (List.mem_append_right _ hrequire)
    · exact ⟨_, Block.mem_survey .heading hnamed (List.mem_append_right _ hrequire), rfl⟩
  | engineQuote hnamed =>
    have htitle : .defect [.field "title"] .absent
        ∈ Block.titleSurvey (Block.engine? owner) (owner.get? "title") :=
      Block.mem_titleSurvey.mpr ⟨_, .absent (.inl habsent), rfl⟩
    refine ⟨.absent, Block.mem_survey .engineQuote hnamed ?_, rfl⟩
    exact List.mem_append_left _ (List.mem_append_right _ htitle)
  | widget hnamed hkey =>
    simp only [List.mem_cons, List.not_mem_nil, or_false] at hkey
    rcases hkey with rfl | rfl
    · refine ⟨.absent, Block.mem_survey .widget hnamed ?_, rfl⟩
      exact List.mem_append_left _ (List.mem_append_left _ hrequire)
    · refine ⟨.absent, Block.mem_survey .widget hnamed ?_, rfl⟩
      exact List.mem_append_left _ (List.mem_append_right _ hrequire)
  | code hnamed => exact ⟨_, Block.mem_survey .code hnamed hrequire, rfl⟩
  | math hnamed => exact ⟨_, Block.mem_survey .math hnamed hrequire, rfl⟩
  | image => exact ⟨_, hrequire, rfl⟩
  | @run quoted =>
    have hrun : .defect [.field "text"] .absent ∈ Run.survey (.object owner) :=
      List.mem_append_left _ hrequire
    cases quoted with
    | false => exact ⟨_, hrun, rfl⟩
    | true => exact ⟨_, List.mem_append_left _ hrun, rfl⟩

theorem Lacks.found (h : Lacks role owner inner) (hrole : role ≠ .chapter) :
    ∃ what, .defect inner what ∈ role.look (.object owner) ∧ what.kind = .missingField := by
  cases h with
  | key hrequires habsent => exact hrequires.found hrole habsent
  | keyFigure h =>
    have hboth : (owner.has "label" && owner.has "value") = false := by
      rw [Bool.and_eq_false_iff, Members.has_eq_false_iff, Members.has_eq_false_iff]
      exact h
    have hfound : .defect [] .figureIncomplete ∈ Block.keyFigure (.object owner) := by
      rw [Block.keyFigure, Survey.object, hboth]
      exact Survey.mem_here.mpr rfl
    exact ⟨_, hfound, rfl⟩
  | widget hnamed hdata href =>
    have hboth : (owner.has "data" || owner.has "dataRef") = false := by
      rw [Bool.or_eq_false_iff, Members.has_eq_false_iff, Members.has_eq_false_iff]
      exact ⟨hdata, href⟩
    have hfound : .defect [] .dataAbsent ∈ Block.contract owner .widget := by
      refine List.mem_append_right _ ?_
      rw [hboth]
      exact Survey.mem_here.mpr rfl
    exact ⟨_, Block.mem_survey .widget hnamed hfound, rfl⟩

theorem Survey.shape_mem_filled {check : Value → Survey} (h : owner.get? key = none) :
    .defect [.field key] (.shape .filledArray) ∈ filled owner key check := by
  rcases filled_cases owner key check with ⟨items, hitems, -⟩ | ⟨-, heq⟩
  · rw [h] at hitems
    cases hitems
  · rw [heq]
    exact mem_atField.mpr rfl

/-- Where there is nothing, there is no array and no object. -/
theorem Houses.found {w : Value} (h : Houses role w key) (hrole : role ≠ .chapter)
    (habsent : w.field? key = none) :
    ∃ shape, .defect [.field key] (.shape shape) ∈ role.look w := by
  rcases h with h | h
  · refine ⟨.filledArray, ?_⟩
    cases h with
    | chapter => exact absurd rfl hrole
    | paragraph hnamed =>
      exact Block.mem_survey .paragraph hnamed (Survey.shape_mem_filled habsent)
    | list hnamed =>
      refine Block.mem_survey .list hnamed (List.mem_append_right _ ?_)
      exact Survey.shape_mem_filled habsent
    | table hnamed => exact Block.mem_survey .table hnamed (Survey.shape_mem_filled habsent)
    | blockquote hnamed =>
      exact Block.mem_survey .blockquote hnamed (Survey.shape_mem_filled habsent)
    | callout hnamed =>
      refine Block.mem_survey .callout hnamed (List.mem_append_right _ ?_)
      exact Survey.shape_mem_filled habsent
    | engineQuote hnamed =>
      refine Block.mem_survey .engineQuote hnamed (List.mem_append_right _ ?_)
      exact Survey.shape_mem_filled habsent
    | kpiGrid hnamed => exact Block.mem_survey .kpiGrid hnamed (Survey.shape_mem_filled habsent)
    | row =>
      -- What is no object has no cells either.
      have hcells : (w.asObject?.getD []).get? "cells" = none := by
        cases w <;> exact habsent
      exact Survey.shape_mem_filled hcells
    | cell => exact Survey.shape_mem_filled habsent
    | quotedParagraph hnamed =>
      have hword : Tagged.ofValue? BlockKind (Members.get? _ "type") = some .paragraph :=
        Tagged.ofValue?_eq_some_iff.mpr hnamed
      show _ ∈ Block.quotedParagraph _
      rw [Block.quotedParagraph, Survey.object, if_pos hword]
      exact Survey.shape_mem_filled habsent
  · refine ⟨.object, ?_⟩
    cases h with
    | @figure level block hnamed =>
      have himg : block.get? "img" = none := habsent
      refine Block.mem_survey .figure hnamed ?_
      rw [Block.contract, himg]
      exact Survey.mem_atField.mpr rfl

theorem Survey.invalid_mem_word {α : Type} [Tagged α] (h : owner.get? key = none) :
    .defect [.field key] (.invalid none) ∈ word α owner key := by
  refine mem_word.mpr ⟨?_, by rw [h]⟩
  intro a
  rw [h]
  exact nofun

/-- What is absent is no word. -/
theorem Names.found (h : Names role owner key kind) (habsent : owner.get? key = none) :
    ∃ what, .defect [.field key] what ∈ role.look (.object owner) ∧ what.kind = kind := by
  cases h with
  | block =>
    refine ⟨.unsupported none, ?_, rfl⟩
    show _ ∈ Block.survey (.object owner)
    rw [Block.survey, Survey.object, Block.kind?, habsent]
    exact Survey.mem_atField.mpr rfl
  | mark =>
    refine ⟨.unsupported none, ?_, rfl⟩
    show _ ∈ Run.markSurvey (.object owner)
    rw [Run.markSurvey, Survey.object, Run.markKind?, habsent]
    exact Survey.mem_atField.mpr rfl
  | quotedBlock =>
    refine ⟨.blockNotAllowed .paragraph, ?_, rfl⟩
    show _ ∈ Block.quotedParagraph (.object owner)
    rw [Block.quotedParagraph, Survey.object, habsent]
    exact Survey.mem_atField.mpr rfl
  | list hnamed =>
    have hword := Survey.invalid_mem_word (α := ListStyle) habsent
    exact ⟨_, Block.mem_survey .list hnamed (List.mem_append_left _ hword), rfl⟩
  | callout hnamed =>
    have hword := Survey.invalid_mem_word (α := Tone) habsent
    exact ⟨_, Block.mem_survey .callout hnamed (List.mem_append_left _ hword), rfl⟩
  | engineQuote hnamed =>
    have hnone : ∀ engine, ¬NamesEngine owner engine := by
      rintro engine ⟨name, hname, -⟩
      rw [habsent] at hname
      cases hname
    have hengine := Block.mem_engineSurvey.mpr ⟨hnone, rfl⟩
    refine ⟨.invalid (owner.get? "engine"), Block.mem_survey .engineQuote hnamed ?_, rfl⟩
    exact List.mem_append_left _ (List.mem_append_left _ hengine)

end Found

/-! ## What else is told there -/

section Grounds

variable {limit level : Nat} {v b : Value} {place : Path} {owner : Members} {key : String}
  {kind : DefectKind} {d : Diagnostic}

/-- A field that is absent leads nowhere. -/
theorem Chapter.node?_of_absent (hnode : node? v place = some (.object owner))
    (habsent : owner.get? key = none) : node? v (place ++ [.field key]) = none := by
  rw [node?_append (ne_nil_of_node? hnode), hnode, Option.bind_some]
  show (Members.get? owner key).bind _ = none
  rw [habsent, Option.bind_none]

/-- **`of_absent`** -- the grounds of what is told at a field that is absent: it is required, it has
to hold a word, or it has to be of a shape. -/
theorem Founded.of_absent (h : Founded limit v kind (place ++ [.field key]))
    (hnode : Chapter.node? v place = some (.object owner)) (habsent : owner.get? key = none) :
    kind = .missingField ∧ key ∈ requiredKeys
      ∨ (kind = .unknownType ∨ kind = .invalidValue) ∧ key ∈ wordKeys
      ∨ kind = .wrongShape ∧ (key ∈ containerKeys
        ∨ ∃ level, Stands v (.block level) place (.object owner)
          ∧ (key = "level" ∧ Named owner "heading"
            ∨ key = "title" ∧ Named owner "engineQuote")) := by
  have hnone := Chapter.node?_of_absent hnode habsent
  have elsewhere {role : Role} {place' : Path} {w : Value} (hstands : Stands v role place' w)
      (hplace : place ++ [.field key] = place') : False := by
    rw [hplace, hstands.node?_eq] at hnone
    cases hnone
  have same {role : Role} {place' : Path} {w : Value} {key' : String}
      (hstands : Stands v role place' w)
      (hplace : place ++ [.field key] = place' ++ [.field key']) :
      place' = place ∧ key' = key ∧ w = .object owner := by
    obtain ⟨rfl, hlast⟩ := List.append_inj' hplace rfl
    have hnode' := hstands.node?_eq.symm.trans hnode
    exact ⟨rfl, by simpa using hlast.symm, Option.some.inj hnode'⟩
  generalize hpath : place ++ [.field key] = path at h
  cases h with
  | absent hstands hrequires =>
    obtain ⟨rfl, rfl, ⟨⟩⟩ := same hstands hpath
    exact .inl ⟨rfl, hrequires.mem_requiredKeys⟩
  | nullTitle hstands =>
    obtain ⟨rfl, rfl, ⟨⟩⟩ := same hstands hpath
    exact .inl ⟨rfl, by decide⟩
  | keyFigure hstands => exact (elsewhere hstands hpath).elim
  | widget hstands => exact (elsewhere hstands hpath).elim
  | node hstands => exact (elsewhere hstands hpath).elim
  | field hstands hdemands =>
    obtain ⟨rfl, rfl, rfl⟩ := same hstands hpath
    refine .inr (.inr ⟨rfl, ?_⟩)
    cases hdemands with
    | heading hnamed => exact .inr ⟨_, hstands, .inl ⟨rfl, hnamed⟩⟩
    | title hnamed => exact .inr ⟨_, hstands, .inr ⟨rfl, hnamed⟩⟩
    | run hhas =>
      rw [Members.has_eq_false_iff.mpr habsent] at hhas
      cases hhas
    | _ => exact .inl (by decide)
  | blockType hstands =>
    obtain ⟨rfl, rfl, ⟨⟩⟩ := same hstands hpath
    exact .inr (.inl ⟨.inl rfl, by decide⟩)
  | markType hstands =>
    obtain ⟨rfl, rfl, ⟨⟩⟩ := same hstands hpath
    exact .inr (.inl ⟨.inl rfl, by decide⟩)
  | engine hstands =>
    obtain ⟨rfl, rfl, ⟨⟩⟩ := same hstands hpath
    exact .inr (.inl ⟨.inr rfl, by decide⟩)
  | listType hstands =>
    obtain ⟨rfl, rfl, ⟨⟩⟩ := same hstands hpath
    exact .inr (.inl ⟨.inr rfl, by decide⟩)
  | tone hstands =>
    obtain ⟨rfl, rfl, ⟨⟩⟩ := same hstands hpath
    exact .inr (.inl ⟨.inr rfl, by decide⟩)
  | quotedMark hstands =>
    obtain ⟨rfl, rfl, ⟨⟩⟩ := same hstands hpath
    exact .inr (.inl ⟨.inr rfl, by decide⟩)
  | quotedType hstands =>
    obtain ⟨rfl, rfl, ⟨⟩⟩ := same hstands hpath
    exact .inr (.inl ⟨.inr rfl, by decide⟩)
  | title hstands _ _ htitle =>
    obtain ⟨rfl, rfl, ⟨⟩⟩ := same hstands hpath
    rw [habsent] at htitle
    cases htitle
  | tooDeep hstands => exact (elsewhere hstands hpath).elim

/-- Below the limit nothing is told of the fields of a block. -/
theorem Stands.level_le (h : Stands v (.block level) place b) (hd : d ∈ Chapter.diagnostics limit v)
    (hpath : d.path = place ++ [.field key]) : level ≤ limit := by
  apply Nat.le_of_not_lt
  intro hlt
  have hdeep := Chapter.eq_tooDeep_of_under h hlt hd ⟨_, hpath.symm⟩
  rw [hdeep, Defect.diagnostic_path] at hpath
  simp at hpath

/-- Of a heading without a level is told what is missing. -/
theorem Chapter.kind_of_absent_level (h : Stands v (.block level) place (.object owner))
    (hnamed : Named owner "heading") (habsent : owner.get? "level" = none)
    (hd : d ∈ diagnostics limit v) (hpath : d.path = place ++ [.field "level"]) :
    d.kind = .missingField := by
  obtain ⟨room, hisolated⟩ := h.isolated (h.level_le hd hpath)
  have htold : d ∈ (Block.survey (.object owner)).diagnose limit room place := by
    rw [← Block.diagnostics_succ, ← hisolated.filter_eq]
    exact List.mem_filter.mpr ⟨hd, decide_eq_true ⟨_, hpath.symm⟩⟩
  obtain ⟨f, hf, hd⟩ := List.mem_flatMap.mp htold
  have hsurvey : Block.survey (.object owner) = Block.contract owner .heading :=
    Block.survey_of_named hnamed
  have hmissing : ∃ place' what, f = .defect place' what ∧ what.kind = .missingField := by
    rw [hsurvey, Block.contract, Block.integer, habsent] at hf
    rcases List.mem_append.mp hf with hf | hf
    · rcases List.mem_append.mp hf with hf | hf
      · exact ⟨_, _, Survey.mem_atField.mp hf, rfl⟩
      · exact ⟨_, _, (Survey.mem_require.mp hf).2, rfl⟩
    · exact ⟨_, _, (Survey.mem_require.mp hf).2, rfl⟩
  obtain ⟨place', what, rfl, hkind⟩ := hmissing
  rw [Finding.diagnose_defect, List.mem_singleton] at hd
  rw [hd, Defect.diagnostic_kind, hkind]

/-- The title of a quote is missing where it is absent. -/
theorem Chapter.kind_of_absent_title (h : Stands v (.block level) place (.object owner))
    (hnamed : Named owner "engineQuote") (habsent : owner.get? "title" = none)
    (hd : d ∈ diagnostics limit v) (hpath : d.path = place ++ [.field "title"]) :
    d.kind ≠ .wrongShape := by
  intro hkind
  obtain ⟨room, hisolated⟩ := h.isolated (h.level_le hd hpath)
  obtain ⟨title, htitle, -⟩ := (Block.coupled hnamed hisolated).shape.mp ⟨d, hd, hkind, hpath⟩
  rw [habsent] at htitle
  cases htitle

/-- **`kind_of_absent`** -- what is told at a field that is absent says that it is missing, or that
it is no word; of a shape it speaks only if the field has to hold an array or an object. -/
theorem Chapter.kind_of_absent (hnode : node? v place = some (.object owner))
    (habsent : owner.get? key = none) (hd : d ∈ diagnostics limit v)
    (hpath : d.path = place ++ [.field key]) :
    d.kind = .missingField ∧ key ∈ requiredKeys
      ∨ (d.kind = .unknownType ∨ d.kind = .invalidValue) ∧ key ∈ wordKeys
      ∨ d.kind = .wrongShape ∧ key ∈ containerKeys := by
  have hfounded := founded_of_mem_diagnostics d hd
  rw [hpath] at hfounded
  rcases hfounded.of_absent hnode habsent with hmissing | hword | ⟨hkind, hcontainer | hspecial⟩
  · exact .inl hmissing
  · exact .inr (.inl hword)
  · exact .inr (.inr ⟨hkind, hcontainer⟩)
  · obtain ⟨level, hstands, ⟨rfl, hnamed⟩ | ⟨rfl, hnamed⟩⟩ := hspecial
    · rw [kind_of_absent_level hstands hnamed habsent hd hpath] at hkind
      cases hkind
    · exact absurd hkind (kind_of_absent_title hstands hnamed habsent hd hpath)

/-- **`resolves_of_wrongShape`** -- where a node is told to be of the wrong shape there is a node,
unless it is the place of a field that has to hold an array or an object, and that is absent. -/
theorem Chapter.resolves_of_wrongShape (hd : d ∈ diagnostics limit v)
    (hkind : d.kind = .wrongShape) :
    (∃ w, node? v d.path = some w)
      ∨ ∃ role above w key, Stands v role above w ∧ Houses role w key ∧ w.field? key = none
        ∧ d.path = above ++ [.field key] := by
  have hfounded := founded_of_mem_diagnostics d hd
  rw [hkind] at hfounded
  generalize hpath : d.path = path at hfounded
  cases hfounded with
  | node hstands => exact .inl ⟨_, hstands.node?_eq⟩
  | @field role place w key form hstands hdemands =>
    cases hget : w.field? key with
    | some u =>
      refine .inl ⟨u, ?_⟩
      rw [node?_append (ne_nil_of_node? hstands.node?_eq), hstands.node?_eq, Option.bind_some]
      show (w.field? key).bind _ = some u
      rw [hget]
      rfl
    | none =>
      cases form with
      | filledArray => exact .inr ⟨role, place, w, key, hstands, .inl hdemands, hget, rfl⟩
      | object => exact .inr ⟨role, place, w, key, hstands, .inr hdemands, hget, rfl⟩
      | integer =>
        cases hdemands with
        | heading hnamed =>
          have hmissing := kind_of_absent_level hstands hnamed hget hd hpath
          rw [hkind] at hmissing
          cases hmissing
      | string =>
        cases hdemands with
        | title hnamed => exact absurd hkind (kind_of_absent_title hstands hnamed hget hd hpath)
      | array =>
        cases hdemands with
        | run hhas =>
          rw [Members.has_eq_false_iff.mpr hget] at hhas
          cases hhas

end Grounds

/-! ## Absence in a report -/

/-- A header field that is absent is told of the chapter. -/
theorem Chapter.told_header {limit : Nat} {chapter : Members} {key : String} (hkey : key ∈ header)
    (habsent : chapter.get? key = none) :
    IsTold (diagnostics limit (.object chapter)) .missingField [.field "chapter", .field key] := by
  have hheader : .defect [.field key] .headerAbsent ∈ headerSurvey chapter := by
    refine List.mem_flatMap.mpr ⟨key, hkey, ?_⟩
    rw [Members.has_eq_false_iff.mpr habsent]
    exact Survey.mem_atField.mpr rfl
  have hsurvey : .defect [.field "chapter", .field key] .headerAbsent
      ∈ survey (.object chapter) :=
    List.mem_append_left _ (Survey.mem_under.mpr ⟨_, hheader, rfl⟩)
  refine ⟨Defect.headerAbsent.diagnostic [.field "chapter", .field key], ?_, rfl, rfl⟩
  refine List.mem_flatMap.mpr ⟨_, hsurvey, ?_⟩
  rw [Finding.diagnose_defect]
  exact List.mem_singleton_self _

theorem Chapter.told_lacks {limit : Nat} {v : Value} {role : Role} {place inner : Path}
    {owner : Members} (h : Stands v role place (.object owner)) (hreached : Reached limit v place)
    (hlacks : Lacks role owner inner) :
    IsTold (diagnostics limit v) .missingField (place ++ inner) := by
  by_cases hrole : role = .chapter
  · subst hrole
    cases h with
    | chapter =>
      cases hlacks with
      | key hrequires habsent =>
        cases hrequires with
        | chapter hkey => exact told_header hkey habsent
    | step _ hleads => cases hleads
  · obtain ⟨what, hfound, hkind⟩ := hlacks.found hrole
    rw [← hkind]
    exact h.told hrole hreached hfound

/-- The blocks of a chapter are missed as a shape if they are absent. -/
theorem Chapter.told_blocks {limit : Nat} {chapter : Members}
    (habsent : chapter.get? "blocks" = none) :
    IsTold (diagnostics limit (.object chapter)) .wrongShape
      [.field "chapter", .field "blocks"] := by
  have hblocks : .defect [.field "chapter", .field "blocks"] (.shape .filledArray)
      ∈ blocksSurvey chapter := by
    rcases blocksSurvey_cases chapter with ⟨items, hitems, -⟩ | ⟨-, heq⟩
    · rw [habsent] at hitems
      cases hitems
    · rw [heq]
      exact List.mem_singleton_self _
  refine ⟨(Defect.shape .filledArray).diagnostic [.field "chapter", .field "blocks"], ?_, rfl, rfl⟩
  refine List.mem_flatMap.mpr ⟨_, List.mem_append_right _ hblocks, ?_⟩
  rw [Finding.diagnose_defect]
  exact List.mem_singleton_self _

theorem Chapter.told_houses {limit : Nat} {v w : Value} {role : Role} {place : Path}
    {key : String} (h : Stands v role place w) (hreached : Reached limit v place)
    (hhouses : Houses role w key) (habsent : w.field? key = none) :
    IsTold (diagnostics limit v) .wrongShape (place ++ [.field key]) := by
  by_cases hrole : role = .chapter
  · subst hrole
    cases h with
    | chapter =>
      rcases hhouses with hdemands | hdemands <;> cases hdemands
      exact told_blocks habsent
    | step _ hleads => cases hleads
  · obtain ⟨shape, hfound⟩ := hhouses.found hrole habsent
    exact h.told hrole hreached hfound

/-- What is told of a chapter is told once. -/
theorem Chapter.countP_told {limit : Nat} {v : Value} {kind : DefectKind} {place : Path}
    (h : IsTold (diagnostics limit v) kind place) :
    (diagnostics limit v).countP (fun d => d.kind = kind ∧ d.path = place) = 1 := by
  have hmem : (kind, place) ∈ (diagnostics limit v).map fun d => (d.kind, d.path) := by
    obtain ⟨d, hd, rfl, rfl⟩ := h
    exact List.mem_map_of_mem hd
  have hcount := List.count_eq_one_of_mem (nodup_told limit v) hmem
  rw [List.count, List.countP_map] at hcount
  rw [← hcount]
  refine List.countP_congr fun d _ => ?_
  simp

/-- **`absence_told`** -- what a part of a chapter lacks is told as missing, if the part is reached,
and of a field that is absent and has to be there nothing else is told. A field that has to hold a
word is told to hold none if it is absent. A field that has to hold an array or an object is told to
be of the wrong shape if it is absent, exactly once; and all else that is told to be of the wrong
shape is there. -/
theorem Validator.absence_told (validator : Validator) (v : Value) :
    (∀ role place (owner : Members) inner, Stands v role place (.object owner) →
      Chapter.Reached validator.limit v place → Lacks role owner inner →
        IsTold (validator.report v).errors .missingField (place ++ inner))
    ∧ (∀ role place (owner : Members) key, Stands v role place (.object owner) →
      Requires role owner key → owner.get? key = none → key ∉ containerKeys →
        ∀ d ∈ (validator.report v).errors, d.path = place ++ [.field key] → d.kind = .missingField)
    ∧ (∀ role place (owner : Members) key kind, Stands v role place (.object owner) →
      Chapter.Reached validator.limit v place → Names role owner key kind →
      owner.get? key = none →
        IsTold (validator.report v).errors kind (place ++ [.field key])
        ∧ ∀ d ∈ (validator.report v).errors, d.path = place ++ [.field key] →
          d.kind = .unknownType ∨ d.kind = .invalidValue)
    ∧ (∀ role place w key, Stands v role place w → Chapter.Reached validator.limit v place →
      Houses role w key → w.field? key = none →
        (validator.report v).errors.countP
          (fun d => d.kind = .wrongShape ∧ d.path = place ++ [.field key]) = 1)
    ∧ ∀ d ∈ (validator.report v).errors, d.kind = .wrongShape →
      (∃ w, Chapter.node? v d.path = some w)
        ∨ ∃ role place w key, Stands v role place w ∧ Houses role w key ∧ w.field? key = none
          ∧ d.path = place ++ [.field key] := by
  have required_not_word : ∀ key ∈ requiredKeys, key ∉ wordKeys := by decide
  have word_not_container : ∀ key ∈ wordKeys, key ∉ containerKeys := by decide
  refine ⟨?_, ?_, ?_, ?_, ?_⟩
  · intro role place owner inner hstands hreached hlacks
    exact Chapter.told_lacks hstands hreached hlacks
  · intro role place owner key hstands hrequires habsent hcontainer d hd hpath
    have hkey := hrequires.mem_requiredKeys
    rcases Chapter.kind_of_absent hstands.node?_eq habsent hd hpath with
      ⟨hmissing, -⟩ | ⟨-, hword⟩ | ⟨-, hshape⟩
    · exact hmissing
    · exact absurd hword (required_not_word key hkey)
    · exact absurd hshape hcontainer
  · intro role place owner key kind hstands hreached hnames habsent
    have hkey := hnames.mem_wordKeys
    obtain ⟨what, hfound, hkind⟩ := hnames.found habsent
    constructor
    · have hrole : role ≠ .chapter := by
        rintro rfl
        cases hnames
      rw [← hkind]
      exact hstands.told hrole hreached hfound
    · intro d hd hpath
      rcases Chapter.kind_of_absent hstands.node?_eq habsent hd hpath with
        ⟨-, hrequired⟩ | ⟨hword, -⟩ | ⟨-, hshape⟩
      · exact absurd hkey (required_not_word key hrequired)
      · exact hword
      · exact absurd hshape (word_not_container key hkey)
  · intro role place w key hstands hreached hhouses habsent
    exact Chapter.countP_told (Chapter.told_houses hstands hreached hhouses habsent)
  · exact fun d hd hkind => Chapter.resolves_of_wrongShape hd hkind

/-- A callout without anything but its type. -/
def bareCallout : Members :=
  [("type", .string "callout")]

/-- A callout without blocks. -/
def hollowCallout : Members :=
  [("tone", .string "info"), ("type", .string "callout")]

/-- A heading without a text. -/
def mutedHeading : Members :=
  [("anchor", .string "a"), ("level", .number (.integer 1)), ("type", .string "heading")]

/-- A chapter with one block. -/
def chapterOf (block : Members) : Value :=
  .object [("anchor", .string "a"), ("blocks", .array [.object block]),
    ("chapterId", .string "c"), ("order", .number (.integer 1)), ("title", .string "T")]

/-- The first block of a chapter is reached. -/
theorem Chapter.reached_first (limit : Nat) (v : Value) (hlimit : 1 ≤ limit) :
    Reached limit v [.field "blocks", .index 0] := by
  intro level outer b hstands hplace
  have hlevel := hstands.two_mul_level_le
  have hlength := hplace.length_le
  simp only [List.length_cons, List.length_nil] at hlength
  omega

/-- A heading that lacks its text, and a callout that lacks its tone and its blocks. -/
theorem Validator.absence_told_heading :
    Stands (chapterOf mutedHeading) (.block 1) [.field "blocks", .index 0] (.object mutedHeading)
      ∧ Chapter.Reached standard.limit (chapterOf mutedHeading) [.field "blocks", .index 0]
      ∧ Lacks (.block 1) mutedHeading [.field "text"]
      ∧ IsTold (standard.report (chapterOf mutedHeading)).errors .missingField
        [.field "blocks", .index 0, .field "text"]
      ∧ Stands (chapterOf bareCallout) (.block 1) [.field "blocks", .index 0] (.object bareCallout)
      ∧ Chapter.Reached standard.limit (chapterOf bareCallout) [.field "blocks", .index 0]
      ∧ Names (.block 1) bareCallout "tone" .invalidValue
      ∧ IsTold (standard.report (chapterOf bareCallout)).errors .invalidValue
        [.field "blocks", .index 0, .field "tone"]
      ∧ Houses (.block 1) (.object bareCallout) "blocks"
      ∧ (standard.report (chapterOf bareCallout)).errors.countP (fun d =>
        d.kind = .wrongShape ∧ d.path = [.field "blocks", .index 0, .field "blocks"]) = 1 := by
  have hlimit : 1 ≤ standard.limit := by decide
  have hheading : Stands (chapterOf mutedHeading) (.block 1) [.field "blocks", .index 0]
      (.object mutedHeading) := .top rfl
  have hcallout : Stands (chapterOf bareCallout) (.block 1) [.field "blocks", .index 0]
      (.object bareCallout) := .top rfl
  have hlacks : Lacks (.block 1) mutedHeading [.field "text"] :=
    .key (.heading rfl (by decide)) rfl
  have hnames : Names (.block 1) bareCallout "tone" .invalidValue := .callout rfl
  have hhouses : Houses (.block 1) (.object bareCallout) "blocks" := .inl (.callout rfl)
  have hreached (v : Value) := Chapter.reached_first standard.limit v hlimit
  obtain ⟨hmissing, -⟩ := absence_told standard (chapterOf mutedHeading)
  obtain ⟨-, -, hword, hshape, -⟩ := absence_told standard (chapterOf bareCallout)
  have htext := hmissing _ _ _ _ hheading (hreached _) hlacks
  have htone := hword _ _ _ _ _ hcallout (hreached _) hnames rfl
  have hblocks := hshape _ _ _ _ hcallout (hreached _) hhouses rfl
  exact ⟨hheading, hreached _, hlacks, htext, hcallout, hreached _, hnames, htone.1, hhouses,
    hblocks⟩

/-- **`exists_absence_otherwise`** -- a required field that is absent is not always told as missing,
and what is told to be of the wrong shape is not always there. -/
theorem Validator.exists_absence_otherwise :
    Stands (chapterOf hollowCallout) (.block 1) [.field "blocks", .index 0]
        (.object hollowCallout)
      ∧ Named hollowCallout "callout" ∧ hollowCallout.get? "blocks" = none
      ∧ (standard.report (chapterOf hollowCallout)).errors
        = [⟨.wrongShape, [.field "blocks", .index 0, .field "blocks"],
            "blocks[0].blocks must be a non-empty array"⟩]
      ∧ Chapter.node? (chapterOf hollowCallout) [.field "blocks", .index 0, .field "blocks"]
        = none := by
  refine ⟨.top rfl, rfl, rfl, ?_, rfl⟩
  decide

end ChapterCheck
