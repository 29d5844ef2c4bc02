/-
# ChapterCheck.Proofs.Acceptance -- a report is empty exactly for the chapters of the grammar

The main statement is `Validator.errors_eq_nil_iff`. A survey without defects is one of blocks alone
(`Survey.OnlyBlocks`), and for each combinator that is what the grammar says in its place. So one
look at a block unrolls one rule (`Block.onlyBlocks_survey_iff`), and the walk does so level by
level (`Finding.diagnose_eq_nil_iff`).
-/
import ChapterCheck.Proofs.Grammar
import ChapterCheck.Validator

namespace ChapterCheck

open Json

/-! ## Surveys without defects -/

/-- A finding that is a block, and one that is as `accept` says. -/
def Finding.BlockAs (accept : Value → Prop) : Finding → Prop
  | .defect _ _ => False
  | .block _ v => accept v

/-- **`OnlyBlocks`** -- nothing is wrong, and every block that was found is as `accept` says. -/
def Survey.OnlyBlocks (accept : Value → Prop) (s : Survey) : Prop :=
  ∀ f ∈ s, f.BlockAs accept

@[simp] theorem Finding.blockAs_under (accept : Value → Prop) (base : Path) (f : Finding) :
    (f.under base).BlockAs accept ↔ f.BlockAs accept := by
  cases f <;> rfl

namespace Survey

variable {accept : Value → Prop} {base : Path} {key : String} {owner : Members}
  {check : Value → Survey}

@[simp] theorem onlyBlocks_nil : OnlyBlocks accept [] ↔ True := by
  simp [OnlyBlocks]

@[simp] theorem onlyBlocks_append {s t : Survey} :
    OnlyBlocks accept (s ++ t) ↔ OnlyBlocks accept s ∧ OnlyBlocks accept t :=
  List.forall_mem_append

@[simp] theorem onlyBlocks_under {s : Survey} :
    OnlyBlocks accept (under base s) ↔ OnlyBlocks accept s := by
  simp [OnlyBlocks, mem_under]

@[simp] theorem onlyBlocks_here {what : Defect} : OnlyBlocks accept (here what) ↔ False := by
  simp [OnlyBlocks, mem_here, Finding.BlockAs]

@[simp] theorem onlyBlocks_atField {what : Defect} :
    OnlyBlocks accept (atField key what) ↔ False := by
  simp [OnlyBlocks, mem_atField, Finding.BlockAs]

@[simp] theorem onlyBlocks_block {v : Value} :
    OnlyBlocks accept (Survey.block v) ↔ accept v := by
  simp [OnlyBlocks, mem_block, Finding.BlockAs]

@[simp] theorem onlyBlocks_require : OnlyBlocks accept (require owner key) ↔ owner.has key := by
  unfold require
  split <;> simp_all

theorem onlyBlocks_each {items : List Value} :
    OnlyBlocks accept (each check items) ↔ ∀ v ∈ items, OnlyBlocks accept (check v) := by
  simp only [OnlyBlocks, mem_each]
  constructor
  · intro h v hv f hf
    obtain ⟨place, hplace⟩ := List.mem_iff_getElem?.mp hv
    exact (Finding.blockAs_under _ _ _).mp (h _ ⟨place, v, hplace, f, hf, rfl⟩)
  · rintro h _ ⟨place, v, hv, g, hg, rfl⟩
    rw [Finding.blockAs_under]
    exact h v (List.mem_of_getElem? hv) g hg

theorem onlyBlocks_filled :
    OnlyBlocks accept (filled owner key check) ↔
      owner.Filled key fun v => OnlyBlocks accept (check v) := by
  rcases filled_cases owner key check with ⟨items, hget, hne, heq⟩ | ⟨hun, heq⟩
  · rw [heq, onlyBlocks_under, onlyBlocks_each]
    constructor
    · exact fun h => ⟨items, hget, hne, h⟩
    · rintro ⟨others, hothers, -, h⟩
      rw [hget] at hothers
      cases hothers
      exact h
  · rw [heq, onlyBlocks_atField, false_iff]
    rintro ⟨items, hget, hne, -⟩
    exact hne (hun items hget)

theorem onlyBlocks_object {v : Value} {check : Members → Survey} :
    OnlyBlocks accept (object v check) ↔
      ∃ members, v = .object members ∧ OnlyBlocks accept (check members) := by
  cases v <;> simp [object]

theorem onlyBlocks_word {α : Type} [Tagged α] :
    OnlyBlocks accept (word α owner key) ↔ Grammar.Word (Tagged.tags α) owner key := by
  rw [Grammar.word_tags_iff, word]
  split <;> simp_all

end Survey

open Survey Grammar

/-! ## Runs in order -/

namespace Run

variable {accept : Value → Prop}

theorem onlyBlocks_markSurvey {v : Value} :
    OnlyBlocks accept (markSurvey v) ↔ IsMark markWords v := by
  rw [markSurvey, onlyBlocks_object]
  constructor
  · rintro ⟨mark, rfl, h⟩
    refine .mk (word_tags_iff (α := MarkKind).mpr ?_)
    split at h
    · exact ⟨_, ‹_›⟩
    · simp at h
  · rintro @⟨mark, h⟩
    obtain ⟨kind, hkind⟩ := word_tags_iff (α := MarkKind).mp h
    exact ⟨mark, rfl, by simp [markKind?, hkind]⟩

theorem onlyBlocks_marksSurvey {run : Members} :
    OnlyBlocks accept (marksSurvey run) ↔ HasMarks markWords run := by
  unfold marksSurvey
  split
  · rename_i h
    simp [HasMarks.absent h]
  · rename_i h
    simp [HasMarks.null h]
  · rename_i marks h
    simp only [onlyBlocks_under, onlyBlocks_each, onlyBlocks_markSurvey]
    constructor
    · exact .array h
    · rintro (habsent | hnull | ⟨harray, hmarks⟩) <;> simp_all
  · rename_i v hnull harray h
    rw [onlyBlocks_atField, false_iff]
    rintro (h' | h' | ⟨h', -⟩) <;> rw [h] at h'
    · cases h'
    · exact hnull (Option.some.inj h')
    · exact harray _ (Option.some.inj h')

/-- The contract of a run is kept exactly by the runs of the grammar. -/
theorem onlyBlocks_survey {v : Value} :
    OnlyBlocks accept (survey v) ↔ IsRun markWords v := by
  simp only [survey, onlyBlocks_object, onlyBlocks_append, onlyBlocks_require,
    onlyBlocks_marksSurvey]
  constructor
  · rintro ⟨run, rfl, htext, hmarks⟩
    exact .mk htext hmarks
  · rintro @⟨run, htext, hmarks⟩
    exact ⟨run, rfl, htext, hmarks⟩

theorem onlyBlocks_markRestriction {mark : Members} :
    OnlyBlocks accept (markRestriction quotedMarks (.object mark)) ↔
      Word quotedMarkWords mark "type" := by
  rw [← any_quotedMarks_iff, markRestriction]
  split <;> simp_all

/-- A mark that keeps the contract and the restriction is one with few words. -/
theorem isMark_quoted_iff {v : Value} :
    IsMark markWords v ∧ OnlyBlocks accept (markRestriction quotedMarks v) ↔
      IsMark quotedMarkWords v := by
  constructor
  · rintro ⟨⟨-⟩, h⟩
    exact .mk (onlyBlocks_markRestriction.mp h)
  · rintro ⟨h⟩
    refine ⟨.mk ?_, onlyBlocks_markRestriction.mpr h⟩
    obtain ⟨word, hword, hget⟩ := h
    exact ⟨word, List.mem_of_mem_take (i := 2) hword, hget⟩

theorem onlyBlocks_restriction {run : Members} :
    OnlyBlocks accept (restriction quotedMarks (.object run)) ↔
      ∀ marks, run.get? "marks" = some (.array marks) →
        ∀ mark ∈ marks, OnlyBlocks accept (markRestriction quotedMarks mark) := by
  have field (key : String) : (Value.object run).field? key = run.get? key := rfl
  rw [restriction, field]
  split
  · rename_i marks h
    simp only [onlyBlocks_under, onlyBlocks_each, h, Option.some.injEq, Value.array.injEq,
      forall_eq']
  · rename_i h
    simp only [onlyBlocks_nil, true_iff]
    intro marks hmarks
    exact absurd hmarks (h marks)

/-- The contract and the restriction together are kept exactly by the runs with few marks. -/
theorem onlyBlocks_quotedSurvey {v : Value} :
    OnlyBlocks accept (quotedSurvey v) ↔ IsRun quotedMarkWords v := by
  rw [quotedSurvey, onlyBlocks_append, onlyBlocks_survey]
  constructor
  · rintro ⟨@⟨run, htext, hmarks⟩, hrest⟩
    refine .mk htext ?_
    rcases hmarks with habsent | hnull | ⟨hget, hmarks⟩
    · exact .absent habsent
    · exact .null hnull
    · refine .array hget ?_
      intro mark hmark
      -- The contract makes it a mark, the restriction one of the few.
      have hfew := onlyBlocks_restriction.mp hrest _ hget mark hmark
      exact isMark_quoted_iff.mp ⟨hmarks mark hmark, hfew⟩
  · rintro @⟨run, htext, hmarks⟩
    rw [onlyBlocks_restriction]
    rcases hmarks with habsent | hnull | @⟨marks, hget, hmarks⟩
    · exact ⟨.mk htext (.absent habsent), by simp [habsent]⟩
    · exact ⟨.mk htext (.null hnull), by simp [hnull]⟩
    · have both (mark : Value) (hmark : mark ∈ marks) :
          IsMark markWords mark ∧ OnlyBlocks accept (markRestriction quotedMarks mark) :=
        isMark_quoted_iff.mpr (hmarks mark hmark)
      refine ⟨.mk htext (.array hget fun mark hmark => (both mark hmark).1), ?_⟩
      intro others hothers mark hmark
      rw [hget] at hothers
      cases hothers
      exact (both mark hmark).2

end Run

/-! ## Blocks in order -/

namespace Block

section Parts

variable {accept : Value → Prop} {owner : Members}

theorem onlyBlocks_integer {key : String} :
    OnlyBlocks accept (integer owner key) ↔
      ∃ n, owner.get? key = some (.number (.integer n)) := by
  unfold integer
  split <;> simp_all

theorem onlyBlocks_keyFigure {v : Value} :
    OnlyBlocks accept (keyFigure v) ↔ IsKeyFigure v := by
  rw [keyFigure, onlyBlocks_object]
  constructor
  · rintro ⟨item, rfl, h⟩
    split at h
    · rename_i both
      rw [Bool.and_eq_true] at both
      exact .mk both.1 both.2
    · simp at h
  · rintro @⟨item, hlabel, hvalue⟩
    exact ⟨item, rfl, by simp [hlabel, hvalue]⟩

theorem onlyBlocks_quotedParagraph {v : Value} :
    OnlyBlocks accept (quotedParagraph v) ↔ IsQuotedParagraph v := by
  have named (block : Members) :
      Tagged.ofValue? BlockKind (block.get? "type") = some .paragraph ↔ Named block "paragraph" :=
    kind?_eq_some_iff
  rw [quotedParagraph, onlyBlocks_object]
  constructor
  · rintro ⟨block, rfl, h⟩
    split at h
    · rename_i hnamed
      simp only [onlyBlocks_filled, Run.onlyBlocks_quotedSurvey] at h
      exact .mk ((named block).mp hnamed) h
    · simp at h
  · rintro @⟨block, hnamed, h⟩
    refine ⟨block, rfl, ?_⟩
    rw [if_pos ((named block).mpr hnamed)]
    simpa only [onlyBlocks_filled, Run.onlyBlocks_quotedSurvey] using h

theorem onlyBlocks_titleSurvey {engine : Engine} {title : Option Value} :
    OnlyBlocks accept (titleSurvey (some engine) title) ↔
      title = some (.string engine.title) := by
  unfold titleSurvey
  split
  · simp
  · simp
  · rename_i title
    by_cases h : title = engine.title <;> simp [h]
  · simp_all

theorem onlyBlocks_engine :
    OnlyBlocks accept (engineSurvey owner ++ titleSurvey (engine? owner) (owner.get? "title")) ↔
      IsEngine owner := by
  rw [onlyBlocks_append, engineSurvey]
  constructor
  · rintro ⟨hengine, htitle⟩
    cases h : engine? owner with
    | none => simp [h] at hengine
    | some engine =>
      rw [h, onlyBlocks_titleSurvey] at htitle
      exact .mk engine (Block.engine?_eq_some_iff.mp h) htitle
  · rintro ⟨engine, hnames, htitle⟩
    rw [Block.engine?_eq_some_iff.mpr hnames, onlyBlocks_titleSurvey]
    exact ⟨by simp, htitle⟩

end Parts

section Levels

variable {limit level : Nat} {owner : Members}

theorem filled_isBlock_iff {key : String} :
    owner.Filled key (IsBlock limit level) ↔
      ∃ held, owner.get? key = some held ∧ IsBlocks limit level held := by
  constructor
  · rintro ⟨blocks, hget, hne, h⟩
    exact ⟨_, hget, .mk hne h⟩
  · rintro ⟨_, hget, ⟨hne, h⟩⟩
    exact ⟨_, hget, hne, h⟩

theorem onlyBlocks_held :
    OnlyBlocks (IsBlock limit level) (filled owner "blocks" Survey.block) ↔
      ∃ held, owner.get? "blocks" = some held ∧ IsBlocks limit level held := by
  simp only [onlyBlocks_filled, onlyBlocks_block, filled_isBlock_iff]

theorem onlyBlocks_listItem {v : Value} :
    OnlyBlocks (IsBlock limit level) (listItem v) ↔ IsBlocks limit level v := by
  unfold listItem
  split
  · rename_i first rest
    simp only [onlyBlocks_each, onlyBlocks_block]
    exact ⟨.mk (List.cons_ne_nil _ _), fun | .mk _ h => h⟩
  · rename_i h
    rw [onlyBlocks_here, false_iff]
    rintro @⟨_, blocks, hne, -⟩
    obtain ⟨first, rest, rfl⟩ := List.exists_cons_of_ne_nil hne
    exact h first rest rfl

theorem onlyBlocks_tableCell {v : Value} :
    OnlyBlocks (IsBlock limit level) (tableCell v) ↔ IsCell limit level v := by
  simp only [tableCell, onlyBlocks_object, onlyBlocks_held]
  constructor
  · rintro ⟨cell, rfl, held, hget, h⟩
    exact .mk hget h
  · rintro @⟨_, cell, held, hget, h⟩
    exact ⟨cell, rfl, held, hget, h⟩

theorem onlyBlocks_tableRow {v : Value} :
    OnlyBlocks (IsBlock limit level) (tableRow v) ↔ IsRow limit level v := by
  simp only [tableRow, onlyBlocks_filled, onlyBlocks_tableCell]
  constructor
  · rintro ⟨cells, hget, hne, h⟩
    -- A row that is no object has no members, so its cells cannot be filled.
    cases v with
    | object row => exact .mk hget hne h
    | _ => cases hget
  · rintro @⟨_, row, cells, hget, hne, h⟩
    exact ⟨cells, hget, hne, h⟩

/-! ### The contract of a kind is its rule -/

theorem onlyBlocks_widget {accept : Value → Prop} :
    OnlyBlocks accept (contract owner .widget) ↔ owner.has "widgetId" ∧ owner.has "widgetType"
      ∧ (owner.has "data" ∨ owner.has "dataRef") := by
  simp only [contract, onlyBlocks_append, onlyBlocks_require, and_assoc, Bool.or_eq_true]
  split <;> simp_all

theorem onlyBlocks_figure {accept : Value → Prop} :
    OnlyBlocks accept (contract owner .figure) ↔
      ∃ img : Members, owner.get? "img" = some (.object img) ∧ img.has "src" := by
  rw [contract]
  split <;> simp_all

theorem isBlock_of_contract {kind : BlockKind} (hlevel : level ≤ limit)
    (hkind : Named owner (Tagged.tag kind))
    (h : OnlyBlocks (IsBlock limit (level + 1)) (contract owner kind)) :
    IsBlock limit level (.object owner) := by
  cases kind with
  | heading =>
    simp only [contract, onlyBlocks_append, onlyBlocks_integer, onlyBlocks_require] at h
    obtain ⟨⟨⟨n, hn⟩, htext⟩, hanchor⟩ := h
    exact .heading hlevel hkind hn htext hanchor
  | paragraph =>
    simp only [contract, onlyBlocks_filled, Run.onlyBlocks_survey] at h
    exact .paragraph hlevel hkind h
  | list =>
    simp only [contract, onlyBlocks_append, onlyBlocks_word, onlyBlocks_filled,
      onlyBlocks_listItem] at h
    obtain ⟨hstyle, items, hget, hne, hitems⟩ := h
    exact .list hlevel hkind hstyle hget hne hitems
  | table =>
    simp only [contract, onlyBlocks_filled, onlyBlocks_tableRow] at h
    obtain ⟨rows, hget, hne, hrows⟩ := h
    exact .table hlevel hkind hget hne hrows
  | blockquote =>
    obtain ⟨held, hget, hheld⟩ := onlyBlocks_held.mp h
    exact .blockquote hlevel hkind hget hheld
  | engineQuote =>
    rw [contract, onlyBlocks_append, onlyBlocks_engine, onlyBlocks_filled] at h
    simp only [onlyBlocks_quotedParagraph] at h
    exact .engineQuote hlevel hkind h.1 h.2
  | callout =>
    rw [contract, onlyBlocks_append, onlyBlocks_word, onlyBlocks_held] at h
    obtain ⟨htone, held, hget, hheld⟩ := h
    exact .callout hlevel hkind htone hget hheld
  | kpiGrid =>
    simp only [contract, onlyBlocks_filled, onlyBlocks_keyFigure] at h
    exact .kpiGrid hlevel hkind h
  | widget =>
    obtain ⟨hid, htype, hdata⟩ := onlyBlocks_widget.mp h
    exact .widget hlevel hkind hid htype hdata
  | code => exact .code hlevel hkind (onlyBlocks_require.mp h)
  | math => exact .math hlevel hkind (onlyBlocks_require.mp h)
  | figure =>
    obtain ⟨img, himg, hsrc⟩ := onlyBlocks_figure.mp h
    exact .figure hlevel hkind himg hsrc

theorem contract_of_isBlock {v : Value} (h : IsBlock limit level v) :
    level ≤ limit ∧ ∃ block kind, v = .object block ∧ Named block (Tagged.tag kind)
      ∧ OnlyBlocks (IsBlock limit (level + 1)) (contract block kind) := by
  cases h with
  | heading hlevel hkind hn htext hanchor =>
    refine ⟨hlevel, _, .heading, rfl, hkind, ?_⟩
    simp only [contract, onlyBlocks_append, onlyBlocks_integer, onlyBlocks_require]
    exact ⟨⟨⟨_, hn⟩, htext⟩, hanchor⟩
  | paragraph hlevel hkind h =>
    refine ⟨hlevel, _, .paragraph, rfl, hkind, ?_⟩
    simpa only [contract, onlyBlocks_filled, Run.onlyBlocks_survey] using h
  | list hlevel hkind hstyle hget hne hitems =>
    refine ⟨hlevel, _, .list, rfl, hkind, ?_⟩
    simp only [contract, onlyBlocks_append, onlyBlocks_word, onlyBlocks_filled,
      onlyBlocks_listItem]
    exact ⟨hstyle, _, hget, hne, hitems⟩
  | table hlevel hkind hget hne hrows =>
    refine ⟨hlevel, _, .table, rfl, hkind, ?_⟩
    simp only [contract, onlyBlocks_filled, onlyBlocks_tableRow]
    exact ⟨_, hget, hne, hrows⟩
  | blockquote hlevel hkind hget hheld =>
    exact ⟨hlevel, _, .blockquote, rfl, hkind, onlyBlocks_held.mpr ⟨_, hget, hheld⟩⟩
  | engineQuote hlevel hkind hengine hheld =>
    refine ⟨hlevel, _, .engineQuote, rfl, hkind, ?_⟩
    rw [contract, onlyBlocks_append, onlyBlocks_engine, onlyBlocks_filled]
    simp only [onlyBlocks_quotedParagraph]
    exact ⟨hengine, hheld⟩
  | callout hlevel hkind htone hget hheld =>
    refine ⟨hlevel, _, .callout, rfl, hkind, ?_⟩
    rw [contract, onlyBlocks_append, onlyBlocks_word, onlyBlocks_held]
    exact ⟨htone, _, hget, hheld⟩
  | kpiGrid hlevel hkind h =>
    refine ⟨hlevel, _, .kpiGrid, rfl, hkind, ?_⟩
    simpa only [contract, onlyBlocks_filled, onlyBlocks_keyFigure] using h
  | widget hlevel hkind hid htype hdata =>
    exact ⟨hlevel, _, .widget, rfl, hkind, onlyBlocks_widget.mpr ⟨hid, htype, hdata⟩⟩
  | code hlevel hkind h =>
    exact ⟨hlevel, _, .code, rfl, hkind, onlyBlocks_require.mpr h⟩
  | math hlevel hkind h =>
    exact ⟨hlevel, _, .math, rfl, hkind, onlyBlocks_require.mpr h⟩
  | figure hlevel hkind himg hsrc =>
    exact ⟨hlevel, _, .figure, rfl, hkind, onlyBlocks_figure.mpr ⟨_, himg, hsrc⟩⟩

/-- **`onlyBlocks_survey_iff`** -- one look at a block unrolls one rule of the grammar. -/
theorem onlyBlocks_survey_iff {v : Value} (hlevel : level ≤ limit) :
    OnlyBlocks (IsBlock limit (level + 1)) (survey v) ↔ IsBlock limit level v := by
  rw [survey, onlyBlocks_object]
  constructor
  · rintro ⟨block, rfl, h⟩
    split at h
    · rename_i kind hkind
      exact isBlock_of_contract hlevel (kind?_eq_some_iff.mp hkind) h
    · simp at h
  · intro h
    obtain ⟨-, block, kind, rfl, hkind, h⟩ := contract_of_isBlock h
    exact ⟨block, rfl, by rwa [kind?_eq_some_iff.mpr hkind]⟩

end Levels

end Block

/-! ## The walk -/

/-- A finding is told without a diagnostic exactly if it is a block of the grammar. -/
theorem Finding.diagnose_eq_nil_iff {limit : Nat} : ∀ {room level : Nat} {base : Path}
    {f : Finding}, level + room = limit + 1 →
      (f.diagnose limit room base = [] ↔ f.BlockAs (IsBlock limit level))
  | _, _, _, .defect _ _, _ => by simp [Finding.BlockAs]
  | 0, level, _, .block _ v, hroom => by
    -- No room is left one level below the limit, and the grammar has no block there.
    rw [Finding.diagnose_block_zero, Finding.BlockAs]
    refine ⟨fun h => absurd h (List.cons_ne_nil _ _), fun h => ?_⟩
    have hlevel : level ≤ limit := (Block.contract_of_isBlock h).1
    omega
  | room + 1, level, base, .block place v, hroom => by
    -- What the block holds is told with one level less, which is where its rule has it.
    have below (f : Finding) : f.diagnose limit room (base ++ place) = [] ↔
        f.BlockAs (IsBlock limit (level + 1)) :=
      diagnose_eq_nil_iff (by omega)
    rw [Finding.diagnose_block_succ, Survey.diagnose, List.flatMap_eq_nil_iff, Finding.BlockAs,
      ← Block.onlyBlocks_survey_iff (show level ≤ limit by omega)]
    exact forall₂_congr fun f _ => below f

theorem Survey.diagnose_eq_nil_iff {limit : Nat} {s : Survey} :
    s.diagnose limit limit [] = [] ↔ s.OnlyBlocks (IsBlock limit 1) := by
  rw [Survey.diagnose, List.flatMap_eq_nil_iff]
  exact forall₂_congr fun _ _ => Finding.diagnose_eq_nil_iff (Nat.add_comm 1 limit)

namespace Chapter

variable {accept : Value → Prop} {chapter : Members}

theorem onlyBlocks_headerSurvey :
    OnlyBlocks accept (headerSurvey chapter) ↔ ∀ key ∈ header, chapter.has key := by
  have each_key (key : String) :
      OnlyBlocks accept (if chapter.has key then [] else atField key .headerAbsent) ↔
        chapter.has key := by
    split <;> simp_all
  constructor
  · intro h key hkey
    exact (each_key key).mp fun f hf => h f (List.mem_flatMap.mpr ⟨key, hkey, hf⟩)
  · intro h f hf
    obtain ⟨key, hkey, hf⟩ := List.mem_flatMap.mp hf
    exact (each_key key).mpr (h key hkey) f hf

theorem onlyBlocks_blocksSurvey :
    OnlyBlocks accept (blocksSurvey chapter) ↔ chapter.Filled "blocks" accept := by
  rcases blocksSurvey_cases chapter with ⟨items, hget, hne, heq⟩ | ⟨hunfilled, heq⟩
  · simp only [heq, onlyBlocks_under, onlyBlocks_each, onlyBlocks_block]
    constructor
    · exact fun hall => ⟨items, hget, hne, hall⟩
    · rintro ⟨others, hothers, -, hall⟩
      rw [hget] at hothers
      cases hothers
      exact hall
  · rw [heq]
    constructor
    · exact fun h => (h _ List.mem_cons_self).elim
    · rintro ⟨blocks, hget, hne, -⟩
      exact absurd (hunfilled blocks hget) hne

theorem onlyBlocks_survey_iff {limit : Nat} {v : Value} :
    OnlyBlocks (IsBlock limit 1) (survey v) ↔ IsChapter limit v := by
  constructor
  · intro h
    cases v with
    | object chapter =>
      simp only [survey, onlyBlocks_append, onlyBlocks_under, onlyBlocks_headerSurvey,
        onlyBlocks_blocksSurvey, Block.filled_isBlock_iff] at h
      obtain ⟨hheader, held, hget, hheld⟩ := h
      exact .mk (hheader _ (by decide)) (hheader _ (by decide)) (hheader _ (by decide))
        (hheader _ (by decide)) hget hheld
    | _ => simp [survey] at h
  · rintro @⟨chapter, held, hid, htitle, hanchor, horder, hget, hheld⟩
    have hblocks : chapter.has "blocks" := Members.has_iff.mpr ⟨held, hget⟩
    simp only [survey, onlyBlocks_append, onlyBlocks_under, onlyBlocks_headerSurvey,
      onlyBlocks_blocksSurvey, Block.filled_isBlock_iff]
    exact ⟨by simp [header, hid, htitle, hanchor, horder, hblocks], held, hget, hheld⟩

end Chapter

/-- **`errors_eq_nil_iff`** -- the report of a validator has no errors exactly for the chapters of
the grammar. -/
theorem Validator.errors_eq_nil_iff (validator : Validator) (v : Value) :
    (validator.report v).errors = [] ↔ IsChapter validator.limit v :=
  Survey.diagnose_eq_nil_iff.trans Chapter.onlyBlocks_survey_iff

end ChapterCheck
