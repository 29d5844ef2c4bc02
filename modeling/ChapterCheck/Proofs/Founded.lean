/-
# ChapterCheck.Proofs.Founded -- every diagnostic has its ground in the document

`Founded` says, kind by kind, what a diagnostic claims of the document at its path: that a required
key is absent, that a node is not of the form its place asks for, that a word is not in the
vocabulary. It is told by the roles of the nodes (`Stands`) and the words of the grammar, and knows
nothing of surveys.

The main statement is `Validator.errors_founded`. A finding is `Sound` at a node if what it says is
so; each combinator keeps findings sound as they are seen from further up, so a look at a node is
sound in any role (`Block.sound_survey`), and the walk carries it down (`Finding.founded`).
-/
import ChapterCheck.Proofs.Roles
import ChapterCheck.Validator

namespace ChapterCheck

open Json Grammar

/-! ## What places ask for -/

/-- The form that a place asks of a node. -/
inductive Form where
  | object
  | array
  | string
  | integer
  | filledArray

/-- The nodes of a form. -/
inductive Form.Fits : Form → Value → Prop
  | object (members : Members) : Fits .object (.object members)
  | array (items : List Value) : Fits .array (.array items)
  | string (s : String) : Fits .string (.string s)
  | integer (n : Int) : Fits .integer (.number (.integer n))
  | filledArray {items : List Value} : items ≠ [] → Fits .filledArray (.array items)

/-- What a node in a role has to be; a row of a table is only asked for its cells. -/
def Role.form? : Role → Option Form
  | .row _ => none
  | .listItem _ => some .filledArray
  | _ => some .object

/-- **`Requires`** -- a key that has to be among the members of a node in a role. -/
inductive Requires : Role → Members → String → Prop
  | chapter {chapter : Members} {key : String} :
      key ∈ ["chapterId", "title", "anchor", "order", "blocks"] → Requires .chapter chapter key
  | heading {level : Nat} {block : Members} {key : String} : Named block "heading" →
      key ∈ ["level", "text", "anchor"] → Requires (.block level) block key
  | engineQuote {level : Nat} {block : Members} : Named block "engineQuote" →
      Requires (.block level) block "title"
  | widget {level : Nat} {block : Members} {key : String} : Named block "widget" →
      key ∈ ["widgetId", "widgetType"] → Requires (.block level) block key
  | code {level : Nat} {block : Members} : Named block "code" →
      Requires (.block level) block "content"
  | math {level : Nat} {block : Members} : Named block "math" →
      Requires (.block level) block "latex"
  | image {img : Members} : Requires .image img "src"
  | run {quoted : Bool} {run : Members} : Requires (.run quoted) run "text"

/-- **`Demands`** -- a field of a node in a role has to be of a form. The marks of a run may be left
out or `null`; a row is asked for its cells whatever it is. -/
inductive Demands : Role → Value → String → Form → Prop
  | chapter {chapter : Members} : Demands .chapter (.object chapter) "blocks" .filledArray
  | heading {level : Nat} {block : Members} : Named block "heading" →
      Demands (.block level) (.object block) "level" .integer
  | paragraph {level : Nat} {block : Members} : Named block "paragraph" →
      Demands (.block level) (.object block) "inlines" .filledArray
  | list {level : Nat} {block : Members} : Named block "list" →
      Demands (.block level) (.object block) "items" .filledArray
  | table {level : Nat} {block : Members} : Named block "table" →
      Demands (.block level) (.object block) "rows" .filledArray
  | blockquote {level : Nat} {block : Members} : Named block "blockquote" →
      Demands (.block level) (.object block) "blocks" .filledArray
  | callout {level : Nat} {block : Members} : Named block "callout" →
      Demands (.block level) (.object block) "blocks" .filledArray
  | engineQuote {level : Nat} {block : Members} : Named block "engineQuote" →
      Demands (.block level) (.object block) "blocks" .filledArray
  | title {level : Nat} {block : Members} : Named block "engineQuote" →
      Demands (.block level) (.object block) "title" .string
  | kpiGrid {level : Nat} {block : Members} : Named block "kpiGrid" →
      Demands (.block level) (.object block) "items" .filledArray
  | figure {level : Nat} {block : Members} : Named block "figure" →
      Demands (.block level) (.object block) "img" .object
  | row {level : Nat} {row : Value} : Demands (.row level) row "cells" .filledArray
  | cell {level : Nat} {cell : Members} :
      Demands (.cell level) (.object cell) "blocks" .filledArray
  | quotedParagraph {block : Members} : Named block "paragraph" →
      Demands .quotedBlock (.object block) "inlines" .filledArray
  | run {quoted : Bool} {run : Members} : run.has "marks" → run.get? "marks" ≠ some .null →
      Demands (.run quoted) (.object run) "marks" .array

/-- **`Founded`** -- what is so of a chapter where a diagnostic of a kind points to. -/
inductive Founded (limit : Nat) (v : Value) : DefectKind → Path → Prop
  /-- A required key is absent. -/
  | absent {role : Role} {place : Path} {owner : Members} {key : String} :
      Stands v role place (.object owner) → Requires role owner key → owner.get? key = none →
      Founded limit v .missingField (place ++ [.field key])
  /-- The title of a quote is `null`. -/
  | nullTitle {level : Nat} {place : Path} {block : Members} :
      Stands v (.block level) place (.object block) → Named block "engineQuote" →
      block.get? "title" = some .null →
      Founded limit v .missingField (place ++ [.field "title"])
  /-- A key figure lacks its label or its value. -/
  | keyFigure {place : Path} {item : Members} : Stands v .keyFigure place (.object item) →
      item.get? "label" = none ∨ item.get? "value" = none → Founded limit v .missingField place
  /-- A widget lacks data, held or referred to. -/
  | widget {level : Nat} {place : Path} {block : Members} :
      Stands v (.block level) place (.object block) → Named block "widget" →
      block.get? "data" = none → block.get? "dataRef" = none → Founded limit v .missingField place
  /-- A node is not of the form that its role asks for. -/
  | node {role : Role} {place : Path} {w : Value} {form : Form} : Stands v role place w →
      role.form? = some form → ¬form.Fits w → Founded limit v .wrongShape place
  /-- A field is absent or not of the form that is asked for. -/
  | field {role : Role} {place : Path} {w : Value} {key : String} {form : Form} :
      Stands v role place w → Demands role w key form →
      (∀ u, w.field? key = some u → ¬form.Fits u) →
      Founded limit v .wrongShape (place ++ [.field key])
  /-- The type of a block is not a word for blocks. -/
  | blockType {level : Nat} {place : Path} {block : Members} :
      Stands v (.block level) place (.object block) → ¬Word blockWords block "type" →
      Founded limit v .unknownType (place ++ [.field "type"])
  /-- The type of a mark is not a word for marks. -/
  | markType {quoted : Bool} {place : Path} {mark : Members} :
      Stands v (.mark quoted) place (.object mark) → ¬Word markWords mark "type" →
      Founded limit v .unknownType (place ++ [.field "type"])
  /-- A quote does not name an engine. -/
  | engine {level : Nat} {place : Path} {block : Members} :
      Stands v (.block level) place (.object block) → Named block "engineQuote" →
      (∀ engine, ¬NamesEngine block engine) →
      Founded limit v .invalidValue (place ++ [.field "engine"])
  /-- The style of a list is not a word for one. -/
  | listType {level : Nat} {place : Path} {block : Members} :
      Stands v (.block level) place (.object block) → Named block "list" →
      ¬Word ["ordered", "bullet", "task"] block "listType" →
      Founded limit v .invalidValue (place ++ [.field "listType"])
  /-- The tone of a callout is not a word for one. -/
  | tone {level : Nat} {place : Path} {block : Members} :
      Stands v (.block level) place (.object block) → Named block "callout" →
      ¬Word ["info", "warning", "success", "danger"] block "tone" →
      Founded limit v .invalidValue (place ++ [.field "tone"])
  /-- A mark in the quote of an engine is not one of the few. -/
  | quotedMark {place : Path} {mark : Members} : Stands v (.mark true) place (.object mark) →
      ¬Word quotedMarkWords mark "type" → Founded limit v .invalidValue (place ++ [.field "type"])
  /-- A block in the quote of an engine is no paragraph. -/
  | quotedType {place : Path} {block : Members} : Stands v .quotedBlock place (.object block) →
      ¬Named block "paragraph" → Founded limit v .invalidValue (place ++ [.field "type"])
  /-- The title of a quote is not that of the engine that it names. -/
  | title {level : Nat} {place : Path} {block : Members} {engine : Engine} {title : String} :
      Stands v (.block level) place (.object block) → Named block "engineQuote" →
      NamesEngine block engine → block.get? "title" = some (.string title) →
      title ≠ engine.title → Founded limit v .inconsistent (place ++ [.field "title"])
  /-- A block stands one level below the limit. -/
  | tooDeep {place : Path} {b : Value} : Stands v (.block (limit + 1)) place b →
      Founded limit v .tooDeep place

/-! ## Sound findings -/

/-- **`Finding.Sound`** -- what a finding says of a chapter is so, as seen from a node at `base`
whose blocks are on `level`. -/
def Finding.Sound (limit : Nat) (v : Value) (level : Nat) (base : Path) : Finding → Prop
  | .defect place what => Founded limit v what.kind (base ++ place)
  | .block place b => Stands v (.block level) (base ++ place) b

theorem Finding.sound_under {limit level : Nat} {v : Value} {base inner : Path} {f : Finding} :
    (f.under inner).Sound limit v level base ↔ f.Sound limit v level (base ++ inner) := by
  cases f <;> simp only [under, Sound, List.append_assoc]

section Combinators

open Survey

variable {limit level : Nat} {v w : Value} {base : Path} {role child : Role} {owner : Members}
  {key : String}

theorem sound_below {inner : Path} {s : Survey}
    (h : ∀ f ∈ s, f.Sound limit v level (base ++ inner)) :
    ∀ f ∈ under inner s, f.Sound limit v level base := by
  intro f hf
  obtain ⟨g, hg, rfl⟩ := mem_under.mp hf
  exact Finding.sound_under.mpr (h g hg)

theorem sound_here {what : Defect} (h : Founded limit v what.kind base) :
    ∀ f ∈ here what, f.Sound limit v level base := by
  intro f hf
  obtain rfl := mem_here.mp hf
  show Founded limit v what.kind (base ++ [])
  rwa [List.append_nil]

theorem sound_atField {what : Defect} (h : Founded limit v what.kind (base ++ [.field key])) :
    ∀ f ∈ atField key what, f.Sound limit v level base := by
  intro f hf
  obtain rfl := mem_atField.mp hf
  exact h

theorem sound_require (h : Stands v role base (.object owner)) (hkey : Requires role owner key) :
    ∀ f ∈ require owner key, f.Sound limit v level base := by
  intro f hf
  obtain ⟨hnone, rfl⟩ := mem_require.mp hf
  exact .absent h hkey hnone

theorem sound_object {check : Members → Survey} (h : Stands v role base w)
    (hrole : role.form? = some .object)
    (hcheck : ∀ members, w = .object members → ∀ f ∈ check members, f.Sound limit v level base) :
    ∀ f ∈ object w check, f.Sound limit v level base := by
  rcases object_cases w check with ⟨members, hw, heq⟩ | ⟨hw, heq⟩
  · rw [heq]
    exact hcheck members hw
  · rw [heq]
    exact sound_here (.node h hrole fun | .object members => hw members rfl)

/-- The elements of an array are looked at where they stand. -/
theorem sound_elements {items : List Value} {check : Value → Survey} (h : Stands v role base w)
    (hget : w.field? key = some (.array items))
    (hlead : ∀ i, Leads role w [.field key, .index i] child)
    (hcheck : ∀ {place : Path} {u : Value}, Stands v child place u →
      ∀ f ∈ check u, f.Sound limit v level place) :
    ∀ f ∈ under [.field key] (each check items), f.Sound limit v level base := by
  intro f hf
  obtain ⟨i, u, hu, g, hg, rfl⟩ := mem_under_each.mp hf
  have hsteps : w.resolve? [.field key, .index i] = some u := by
    rw [← elements_getElem?, elements_of_field? hget]
    exact hu
  exact Finding.sound_under.mpr (hcheck (h.step (hlead i) hsteps) g hg)

theorem sound_filled {check : Value → Survey} (h : Stands v role base w)
    (howner : w.asObject?.getD [] = owner) (hform : Demands role w key .filledArray)
    (hlead : ∀ i, Leads role w [.field key, .index i] child)
    (hcheck : ∀ {place : Path} {u : Value}, Stands v child place u →
      ∀ f ∈ check u, f.Sound limit v level place) :
    ∀ f ∈ filled owner key check, f.Sound limit v level base := by
  -- A row may be no object; its cells are then asked of no members at all.
  have hfield : w.field? key = owner.get? key := by
    rw [← howner]
    cases w <;> rfl
  rcases filled_cases owner key check with ⟨items, hget, -, heq⟩ | ⟨hun, heq⟩
  · rw [heq]
    exact sound_elements h (hfield.trans hget) hlead hcheck
  · rw [heq]
    refine sound_atField (.field h hform ?_)
    intro u hget hfits
    cases hfits with
    | filledArray hne => exact hne (hun _ (hfield.symm.trans hget))

/-- A block that is to be looked at in turn stands where it was found. -/
theorem sound_block {place : Path} {u : Value} (h : Stands v (.block level) place u) :
    ∀ f ∈ Survey.block u, f.Sound limit v level place := by
  intro f hf
  rw [mem_block.mp hf]
  show Stands v (.block level) (place ++ []) u
  rwa [List.append_nil]

end Combinators

/-! ## Runs and marks -/

namespace Run

open Survey

variable {limit level : Nat} {v w : Value} {base : Path} {quoted : Bool}

theorem sound_markSurvey (h : Stands v (.mark quoted) base w) :
    ∀ f ∈ markSurvey w, f.Sound limit v level base := by
  refine sound_object h rfl ?_
  rintro mark rfl
  split
  · exact List.forall_mem_nil _
  · rename_i hnone
    refine sound_atField (.markType h ?_)
    intro hword
    obtain ⟨kind, hkind⟩ := (word_tags_iff (α := MarkKind)).mp hword
    exact absurd (hkind.symm.trans hnone) (Option.some_ne_none kind)

theorem sound_marksSurvey {run : Members} (h : Stands v (.run quoted) base (.object run)) :
    ∀ f ∈ marksSurvey run, f.Sound limit v level base := by
  unfold marksSurvey
  split
  · exact List.forall_mem_nil _
  · exact List.forall_mem_nil _
  · rename_i marks hget
    exact sound_elements h hget (fun _ => .run) sound_markSurvey
  · rename_i u hnull harray hget
    refine sound_atField (.field h (.run (Members.has_iff.mpr ⟨u, hget⟩) ?_) ?_)
    · rw [hget]
      exact fun hu => hnull (Option.some.inj hu)
    · intro _ hu hfits
      cases hfits with
      | array items => exact harray items (Option.some.inj (hget.symm.trans hu))

theorem sound_survey (h : Stands v (.run quoted) base w) :
    ∀ f ∈ survey w, f.Sound limit v level base := by
  refine sound_object h rfl ?_
  rintro run rfl
  rw [List.forall_mem_append]
  exact ⟨sound_require h .run, sound_marksSurvey h⟩

theorem sound_markRestriction (h : Stands v (.mark true) base w) :
    ∀ f ∈ markRestriction quotedMarks w, f.Sound limit v level base := by
  cases w with
  | object mark =>
    rw [markRestriction]
    split
    · exact List.forall_mem_nil _
    · rename_i hany
      exact sound_atField (.quotedMark h fun hword => hany (any_quotedMarks_iff.mpr hword))
  | _ => exact List.forall_mem_nil _

/-- The restriction speaks of marks that are there, where they stand. -/
theorem sound_restriction (h : Stands v (.run true) base w) :
    ∀ f ∈ restriction quotedMarks w, f.Sound limit v level base := by
  unfold restriction
  split
  · rename_i marks hget
    exact sound_elements h hget (fun _ => .run) sound_markRestriction
  · exact List.forall_mem_nil _

theorem sound_quotedSurvey (h : Stands v (.run true) base w) :
    ∀ f ∈ quotedSurvey w, f.Sound limit v level base := by
  rw [quotedSurvey, List.forall_mem_append]
  exact ⟨sound_survey h, sound_restriction h⟩

end Run

/-! ## Blocks -/

namespace Block

open Survey

variable {limit level : Nat} {v w : Value} {base : Path} {block : Members}

theorem sound_keyFigure (h : Stands v .keyFigure base w) :
    ∀ f ∈ keyFigure w, f.Sound limit v level base := by
  refine sound_object h rfl ?_
  rintro item rfl
  split
  · exact List.forall_mem_nil _
  · rename_i hboth
    refine sound_here (.keyFigure h ?_)
    rw [Bool.and_eq_true, Classical.not_and_iff_not_or_not, Bool.not_eq_true, Bool.not_eq_true,
      Members.has_eq_false_iff, Members.has_eq_false_iff] at hboth
    exact hboth

theorem sound_integer (h : Stands v (.block level) base (.object block))
    (hnamed : Named block "heading") :
    ∀ f ∈ integer block "level", f.Sound limit v (level + 1) base := by
  unfold integer
  split
  · exact List.forall_mem_nil _
  · rename_i u hinteger hget
    refine sound_atField (.field h (.heading hnamed) ?_)
    intro _ hu hfits
    cases hfits with
    | integer n => exact hinteger n (Option.some.inj (hget.symm.trans hu))
  · rename_i hnone
    exact sound_atField (.absent h (.heading hnamed List.mem_cons_self) hnone)

/-- What is said of a word that is not among those asked for. -/
theorem sound_word {α : Type} [Tagged α] {key : String}
    (hinvalid : ¬Word (Tagged.tags α) block key →
      Founded limit v .invalidValue (base ++ [.field key])) :
    ∀ f ∈ word α block key, f.Sound limit v (level + 1) base := by
  intro f hf
  obtain ⟨hword, rfl⟩ := mem_word.mp hf
  refine hinvalid ?_
  rw [word_tags_iff]
  rintro ⟨a, ha⟩
  exact hword a (Tagged.ofValue?_eq_some_iff.mp ha)

theorem sound_engineSurvey (h : Stands v (.block level) base (.object block))
    (hnamed : Named block "engineQuote") :
    ∀ f ∈ engineSurvey block, f.Sound limit v (level + 1) base := by
  rw [engineSurvey]
  split
  · exact List.forall_mem_nil _
  · rename_i hnone
    refine sound_atField (.engine h hnamed ?_)
    intro engine hengine
    rw [engine?_eq_some_iff.mpr hengine] at hnone
    cases hnone

theorem sound_titleSurvey (h : Stands v (.block level) base (.object block))
    (hnamed : Named block "engineQuote") :
    ∀ f ∈ titleSurvey (engine? block) (block.get? "title"), f.Sound limit v (level + 1) base := by
  unfold titleSurvey
  split
  · rename_i hnone
    exact sound_atField (.absent h (.engineQuote hnamed) hnone)
  · rename_i hnull
    exact sound_atField (.nullTitle h hnamed hnull)
  · rename_i title htitle
    split
    · rename_i engine hengine
      split
      · exact List.forall_mem_nil _
      · rename_i hne
        have hnames := engine?_eq_some_iff.mp hengine
        exact sound_atField (.title h hnamed hnames htitle hne)
    · exact List.forall_mem_nil _
  · rename_i u _ hstring htitle
    refine sound_atField (.field h (.title hnamed) ?_)
    intro _ hu hfits
    cases hfits with
    | string s => exact hstring s (Option.some.inj (htitle.symm.trans hu))

theorem sound_quotedParagraph (h : Stands v .quotedBlock base w) :
    ∀ f ∈ quotedParagraph w, f.Sound limit v level base := by
  refine sound_object h rfl ?_
  rintro quoted rfl
  split
  · rename_i hkind
    have hnamed : Named quoted "paragraph" := kind?_eq_some_iff.mp hkind
    exact sound_filled h rfl (.quotedParagraph hnamed) (fun _ => .quotedParagraph hnamed)
      Run.sound_quotedSurvey
  · rename_i hkind
    exact sound_atField (.quotedType h fun hnamed => hkind (kind?_eq_some_iff.mpr hnamed))

theorem sound_listItem (h : Stands v (.listItem level) base w) :
    ∀ f ∈ listItem w, f.Sound limit v level base := by
  unfold listItem
  split
  · rename_i first rest
    intro f hf
    obtain ⟨j, u, hu, g, hg, rfl⟩ := mem_each.mp hf
    have hstep : (Value.array (first :: rest)).resolve? [.index j] = some u := by
      rw [← asArray?_getElem?]
      exact hu
    exact Finding.sound_under.mpr (sound_block (h.step .listItem hstep) g hg)
  · rename_i hfilled
    refine sound_here (.node h rfl ?_)
    intro hfits
    cases hfits with
    | filledArray hne =>
      obtain ⟨first, rest, rfl⟩ := List.exists_cons_of_ne_nil hne
      exact hfilled first rest rfl

theorem sound_tableCell (h : Stands v (.cell level) base w) :
    ∀ f ∈ tableCell w, f.Sound limit v level base := by
  refine sound_object h rfl ?_
  rintro cell rfl
  exact sound_filled h rfl .cell (fun _ => .cell) sound_block

theorem sound_tableRow (h : Stands v (.row level) base w) :
    ∀ f ∈ tableRow w, f.Sound limit v level base :=
  sound_filled h rfl .row (fun _ => .row) sound_tableCell

theorem sound_contract (h : Stands v (.block level) base (.object block)) :
    ∀ kind, Named block (Tagged.tag kind) →
      ∀ f ∈ contract block kind, f.Sound limit v (level + 1) base
  | .heading, hnamed => by
    simp only [contract, List.forall_mem_append]
    exact ⟨⟨sound_integer h hnamed, sound_require h (.heading hnamed (by simp))⟩,
      sound_require h (.heading hnamed (by simp))⟩
  | .paragraph, hnamed =>
    sound_filled h rfl (.paragraph hnamed) (fun _ => .paragraph hnamed) Run.sound_survey
  | .list, hnamed => by
    rw [contract, List.forall_mem_append]
    exact ⟨sound_word (.listType h hnamed),
      sound_filled h rfl (.list hnamed) (fun _ => .list hnamed) sound_listItem⟩
  | .table, hnamed =>
    sound_filled h rfl (.table hnamed) (fun _ => .table hnamed) sound_tableRow
  | .blockquote, hnamed =>
    sound_filled h rfl (.blockquote hnamed) (fun _ => .blockquote hnamed) sound_block
  | .engineQuote, hnamed => by
    simp only [contract, List.forall_mem_append]
    exact ⟨⟨sound_engineSurvey h hnamed, sound_titleSurvey h hnamed⟩,
      sound_filled h rfl (.engineQuote hnamed) (fun _ => .engineQuote hnamed)
        sound_quotedParagraph⟩
  | .callout, hnamed => by
    rw [contract, List.forall_mem_append]
    exact ⟨sound_word (.tone h hnamed),
      sound_filled h rfl (.callout hnamed) (fun _ => .callout hnamed) sound_block⟩
  | .kpiGrid, hnamed =>
    sound_filled h rfl (.kpiGrid hnamed) (fun _ => .kpiGrid hnamed) sound_keyFigure
  | .widget, hnamed => by
    simp only [contract, List.forall_mem_append]
    refine ⟨⟨sound_require h (.widget hnamed (by simp)),
      sound_require h (.widget hnamed (by simp))⟩, ?_⟩
    split
    · exact List.forall_mem_nil _
    · rename_i hdata
      rw [Bool.not_eq_true, Bool.or_eq_false_iff, Members.has_eq_false_iff,
        Members.has_eq_false_iff] at hdata
      exact sound_here (.widget h hnamed hdata.1 hdata.2)
  | .code, hnamed => sound_require h (.code hnamed)
  | .math, hnamed => sound_require h (.math hnamed)
  | .figure, hnamed => by
    rw [contract]
    split
    · rename_i img himg
      have hstep : (Value.object block).resolve? [.field "img"] = some (.object img) :=
        Option.bind_eq_some_iff.mpr ⟨_, himg, rfl⟩
      exact sound_below (sound_require (h.step (.figure hnamed) hstep) .image)
    · rename_i himg
      refine sound_atField (.field h (.figure hnamed) ?_)
      intro u hu hfits
      cases hfits with
      | object img => exact himg img hu

/-- What one look at a block finds is so, and the blocks that it finds are one level down. -/
theorem sound_survey (h : Stands v (.block level) base w) :
    ∀ f ∈ survey w, f.Sound limit v (level + 1) base := by
  refine sound_object h rfl ?_
  rintro block rfl
  split
  · rename_i kind hkind
    exact sound_contract h kind (kind?_eq_some_iff.mp hkind)
  · rename_i hkind
    refine sound_atField (.blockType h ?_)
    intro hword
    obtain ⟨kind, hk⟩ := (word_tags_iff (α := BlockKind)).mp hword
    exact absurd (hk.symm.trans hkind) (Option.some_ne_none kind)

end Block

/-! ## Chapters and their diagnostics -/

namespace Chapter

open Survey

variable {limit : Nat} {v : Value}

theorem sound_headerSurvey {chapter : Members} :
    ∀ f ∈ headerSurvey chapter, f.Sound limit (.object chapter) 1 [.field "chapter"] := by
  intro f hf
  obtain ⟨key, hkey, hf⟩ := List.mem_flatMap.mp hf
  split at hf
  · cases hf
  · rename_i habsent
    rw [Bool.not_eq_true, Members.has_eq_false_iff] at habsent
    exact sound_atField (.absent .chapter (.chapter hkey) habsent) f hf

theorem sound_blocksSurvey {chapter : Members} :
    ∀ f ∈ blocksSurvey chapter, f.Sound limit (.object chapter) 1 [] := by
  rcases blocksSurvey_cases chapter with ⟨items, hget, -, heq⟩ | ⟨hunfilled, heq⟩
  · rw [heq]
    intro f hf
    obtain ⟨i, b, hb, g, hg, rfl⟩ := mem_under_each.mp hf
    have hstep : (Value.object chapter).resolve? [.field "blocks", .index i] = some b := by
      rw [← elements_getElem?, elements_of_field? (v := .object chapter) hget]
      exact hb
    exact Finding.sound_under.mpr (sound_block (.top hstep) g hg)
  · rw [heq]
    intro f hf
    obtain rfl := List.mem_singleton.mp hf
    refine .field .chapter .chapter ?_
    intro u hu hfits
    cases hfits with
    | filledArray hne => exact hne (hunfilled _ hu)

theorem sound_survey : ∀ f ∈ survey v, f.Sound limit v 1 [] := by
  unfold survey
  split
  · rename_i chapter
    rw [List.forall_mem_append]
    exact ⟨sound_below sound_headerSurvey, sound_blocksSurvey⟩
  · rename_i hobject
    refine sound_below (sound_here (.node .chapter rfl ?_))
    intro hfits
    cases hfits with
    | object chapter => exact hobject chapter rfl

end Chapter

/-- The walk carries what is so down to the limit. -/
theorem Finding.founded {limit : Nat} {v : Value} : ∀ {room level : Nat} {base : Path}
    {f : Finding}, level + room = limit + 1 → f.Sound limit v level base →
      ∀ d ∈ f.diagnose limit room base, Founded limit v d.kind d.path
  | _, _, _, .defect _ _, _, h => by
    intro d hd
    rw [Finding.diagnose_defect, List.mem_singleton] at hd
    subst hd
    exact h
  | 0, level, base, .block place b, hroom, h => by
    intro d hd
    rw [Finding.diagnose_block_zero, List.mem_singleton] at hd
    subst hd
    -- Without room, the level is the first one below the limit.
    obtain rfl : level = limit + 1 := hroom
    exact .tooDeep h
  | room + 1, level, base, .block place b, hroom, h => by
    intro d hd
    rw [Finding.diagnose_block_succ] at hd
    obtain ⟨f, hf, hd⟩ := List.mem_flatMap.mp hd
    exact founded (by omega) (Block.sound_survey h f hf) d hd

theorem Chapter.founded_of_mem_diagnostics {limit : Nat} {v : Value} :
    ∀ d ∈ diagnostics limit v, Founded limit v d.kind d.path := by
  intro d hd
  obtain ⟨f, hf, hd⟩ := List.mem_flatMap.mp hd
  exact f.founded (Nat.add_comm 1 limit) (sound_survey f hf) d hd

/-- Whatever a diagnostic says, the node above its path is there, unless it says that the chapter
itself is no object. -/
theorem Founded.exists_above {limit : Nat} {v : Value} {kind : DefectKind} {path : Path}
    (h : Founded limit v kind path) :
    (path = [.field "chapter"] ∧ ∀ members, v ≠ .object members)
      ∨ ∃ above last u, path = above ++ [last] ∧ Chapter.node? v above = some u := by
  have inner {role : Role} {place : Path} {w : Value} (hstands : Stands v role place w)
      (hrole : role ≠ .chapter) :
      ∃ above last u, place = above ++ [last] ∧ Chapter.node? v above = some u := by
    obtain ⟨above, last, hplace, u, hu⟩ := hstands.exists_above hrole
    exact ⟨above, last, u, hplace, hu⟩
  cases h with
  | absent hstands => exact .inr ⟨_, _, _, rfl, hstands.node?_eq⟩
  | nullTitle hstands => exact .inr ⟨_, _, _, rfl, hstands.node?_eq⟩
  | keyFigure hstands => exact .inr (inner hstands Role.noConfusion)
  | widget hstands => exact .inr (inner hstands Role.noConfusion)
  | @node role _ w form hstands hrole hfits =>
    by_cases hchapter : role = .chapter
    · subst hchapter
      cases hrole
      cases hstands with
      | chapter =>
        refine .inl ⟨rfl, ?_⟩
        rintro members rfl
        exact hfits (.object members)
      | step _ hleads => cases hleads
    · exact .inr (inner hstands hchapter)
  | field hstands => exact .inr ⟨_, _, _, rfl, hstands.node?_eq⟩
  | blockType hstands => exact .inr ⟨_, _, _, rfl, hstands.node?_eq⟩
  | markType hstands => exact .inr ⟨_, _, _, rfl, hstands.node?_eq⟩
  | engine hstands => exact .inr ⟨_, _, _, rfl, hstands.node?_eq⟩
  | listType hstands => exact .inr ⟨_, _, _, rfl, hstands.node?_eq⟩
  | tone hstands => exact .inr ⟨_, _, _, rfl, hstands.node?_eq⟩
  | quotedMark hstands => exact .inr ⟨_, _, _, rfl, hstands.node?_eq⟩
  | quotedType hstands => exact .inr ⟨_, _, _, rfl, hstands.node?_eq⟩
  | title hstands => exact .inr ⟨_, _, _, rfl, hstands.node?_eq⟩
  | tooDeep hstands => exact .inr (inner hstands Role.noConfusion)

/-- What is no object is told as such and not looked at further. -/
theorem Chapter.diagnostics_of_not_object {limit : Nat} {v : Value}
    (h : ∀ members, v ≠ .object members) :
    diagnostics limit v = [⟨.wrongShape, [.field "chapter"], "chapter must be an object"⟩] := by
  have hsurvey : survey v = [.defect [.field "chapter"] (.shape .object)] := by
    cases v with
    | object members => exact absurd rfl (h members)
    | _ => rfl
  rw [diagnostics, hsurvey, Survey.diagnose, List.flatMap_singleton, Finding.diagnose_defect]
  rfl

/-- **`errors_founded`** -- what stands at a place is what its path leads to; and every diagnostic
of a report is founded in the chapter, and the node above its path is there, except for the one that
says that the chapter is no object. -/
theorem Validator.errors_founded (validator : Validator) (v : Value) :
    (∀ role place w, Stands v role place w → Chapter.node? v place = some w)
    ∧ ∀ d ∈ (validator.report v).errors,
      ((∀ members, v ≠ .object members) ∧ (validator.report v).errors = [d]
        ∧ d = ⟨.wrongShape, [.field "chapter"], "chapter must be an object"⟩)
      ∨ (∃ above last u, d.path = above ++ [last] ∧ Chapter.node? v above = some u)
        ∧ Founded validator.limit v d.kind d.path := by
  refine ⟨fun _ _ _ h => h.node?_eq, ?_⟩
  intro d hd
  have hfounded := Chapter.founded_of_mem_diagnostics d hd
  -- Only what is said of the chapter as a whole has no node above it.
  rcases hfounded.exists_above with ⟨-, hobject⟩ | habove
  · have herrors : (validator.report v).errors = _ := Chapter.diagnostics_of_not_object hobject
    rw [herrors, List.mem_singleton] at hd
    exact .inl ⟨hobject, by rw [herrors, hd], hd⟩
  · exact .inr ⟨habove, hfounded⟩

end ChapterCheck
