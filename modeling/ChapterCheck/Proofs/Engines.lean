/-
# ChapterCheck.Proofs.Engines -- the engine and the title of a quote

A quote names an engine and has a title, and what is told of the two is told of nothing else. The
engine is judged by itself, the title by itself and by the engine, if there is one; what the quote
holds is told the same whatever engine and title are (`Block.Coupled`, `Chapter.coupled`).

An engine is named in any case. `Chapter.Recased` writes the name of one engine in another case,
anywhere in a chapter, and no number of such changes shows in a report
(`Chapter.Recased.diagnostics_eq`). Where the walk reaches the quote, its look finds the same. Where
the quote is itself in the quote of an engine, or somewhere below, it is no paragraph, and nothing
but its type is ever read.
-/
import ChapterCheck.Proofs.Depth
import ChapterCheck.Proofs.Relevance
import ChapterCheck.Proofs.Replacement
import ChapterCheck.Proofs.Sequence

namespace ChapterCheck

open Json Grammar

/-! ## What is told at a place -/

/-- **`IsTold`** -- among some diagnostics there is one of a kind at a place. -/
def IsTold (told : List Diagnostic) (kind : DefectKind) (place : Path) : Prop :=
  ∃ d ∈ told, d.kind = kind ∧ d.path = place

/-- What lies under a place that is isolated lies in the isolated run. -/
theorem Isolated.filter_under {place : Path} {run all : List Diagnostic}
    (h : Isolated place run all) (inner : Path) :
    all.filter (place ++ inner <+: ·.path) = run.filter (place ++ inner <+: ·.path) := by
  rw [← h.filter_eq, List.filter_filter]
  refine List.filter_congr fun d _ => ?_
  rw [Bool.eq_iff_iff, Bool.and_eq_true, decide_eq_true_eq, decide_eq_true_eq]
  exact ⟨fun hinner => ⟨hinner, (List.prefix_append place inner).trans hinner⟩, And.left⟩

/-- All findings of a survey lie at or under a field. -/
def Survey.Keyed (key : String) (s : Survey) : Prop :=
  ∀ f ∈ s, [.field key] <+: f.place

namespace Survey

variable {key other : String} {s : Survey} {limit room : Nat} {base : Path}

theorem Ordered.keyed_of_singleton (h : Ordered [key] s) : Keyed key s := by
  intro f hf
  obtain ⟨_, hkey, hplace⟩ := h.keyed f hf
  obtain rfl := List.mem_singleton.mp hkey
  exact hplace

theorem keyed_filled (owner : Members) (key : String) (check : Value → Survey) :
    Keyed key (filled owner key check) :=
  fun _ hf => prefix_of_mem_filled hf

theorem Keyed.prefix_of_mem (h : Keyed key s) {d : Diagnostic}
    (hd : d ∈ s.diagnose limit room base) : base ++ [.field key] <+: d.path := by
  obtain ⟨f, hf, hd⟩ := List.mem_flatMap.mp hd
  have hplace : base ++ [.field key] <+: base ++ f.place :=
    (List.prefix_append_right_inj base).mpr (h f hf)
  exact hplace.trans (Finding.prefix_of_mem_diagnose hd)

theorem Keyed.filter_self (h : Keyed key s) :
    (s.diagnose limit room base).filter (base ++ [.field key] <+: ·.path)
      = s.diagnose limit room base :=
  List.filter_eq_self.mpr fun _ hd => decide_eq_true (h.prefix_of_mem hd)

theorem Keyed.filter_of_ne (h : Keyed other s) (hne : key ≠ other) :
    (s.diagnose limit room base).filter (base ++ [.field key] <+: ·.path) = [] := by
  refine List.filter_eq_nil_iff.mpr fun d hd => ?_
  rw [decide_eq_true_eq]
  intro hkey
  exact hne (Step.field.inj (Path.eq_of_append_under hkey (h.prefix_of_mem hd)))

end Survey

/-! ## The parts of a quote -/

namespace Block

variable {quote : Members} {limit room : Nat} {place : Path} {all : List Diagnostic}

theorem keyed_engineSurvey (quote : Members) : Survey.Keyed "engine" (engineSurvey quote) :=
  (ordered_engineSurvey quote).keyed_of_singleton

theorem keyed_titleSurvey (engine : Option Engine) (title : Option Value) :
    Survey.Keyed "title" (titleSurvey engine title) :=
  (ordered_titleSurvey engine title).keyed_of_singleton

/-- **`quote_filters`** -- what is told of a quote is told of its engine, of its title and of what
it holds, each at its own field. -/
theorem quote_filters (hnamed : Named quote "engineQuote")
    (h : Isolated place (diagnostics limit (room + 1) (place, .object quote)) all) :
    all.filter (place ++ [.field "engine"] <+: ·.path)
        = (engineSurvey quote).diagnose limit room place
      ∧ all.filter (place ++ [.field "title"] <+: ·.path)
        = (titleSurvey (engine? quote) (quote.get? "title")).diagnose limit room place
      ∧ all.filter (place ++ [.field "blocks"] <+: ·.path)
        = (Survey.filled quote "blocks" quotedParagraph).diagnose limit room place := by
  have hsurvey : survey (.object quote) = contract quote .engineQuote := survey_of_named hnamed
  have hrun : diagnostics limit (room + 1) (place, .object quote)
      = (engineSurvey quote).diagnose limit room place
        ++ (titleSurvey (engine? quote) (quote.get? "title")).diagnose limit room place
        ++ (Survey.filled quote "blocks" quotedParagraph).diagnose limit room place := by
    rw [diagnostics_succ, hsurvey, contract, Survey.diagnose_append, Survey.diagnose_append]
  have hengine := keyed_engineSurvey quote
  have htitle := keyed_titleSurvey (engine? quote) (quote.get? "title")
  have hblocks := Survey.keyed_filled quote "blocks" quotedParagraph
  refine ⟨?_, ?_, ?_⟩
  · rw [h.filter_under, hrun, List.filter_append, List.filter_append, hengine.filter_self,
      htitle.filter_of_ne (by decide), hblocks.filter_of_ne (by decide), List.append_nil,
      List.append_nil]
  · rw [h.filter_under, hrun, List.filter_append, List.filter_append, htitle.filter_self,
      hengine.filter_of_ne (by decide), hblocks.filter_of_ne (by decide), List.append_nil,
      List.nil_append]
  · rw [h.filter_under, hrun, List.filter_append, List.filter_append, hblocks.filter_self,
      hengine.filter_of_ne (by decide), htitle.filter_of_ne (by decide), List.append_nil,
      List.nil_append]

end Block

/-! ## Engine and title -/

/-- **`Block.Coupled`** -- what is told of the engine and the title of a quote, by what they
hold. -/
structure Block.Coupled (quote : Members) (place : Path) (told : List Diagnostic) : Prop where
  engine : IsTold told .invalidValue (place ++ [.field "engine"]) ↔
    ∀ engine, ¬NamesEngine quote engine
  absent : IsTold told .missingField (place ++ [.field "title"]) ↔
    quote.get? "title" = none ∨ quote.get? "title" = some .null
  shape : IsTold told .wrongShape (place ++ [.field "title"]) ↔
    ∃ title, quote.get? "title" = some title ∧ title ≠ .null ∧ ∀ s, title ≠ .string s
  mismatch : IsTold told .inconsistent (place ++ [.field "title"]) ↔
    ∃ title engine, quote.get? "title" = some (.string title) ∧ NamesEngine quote engine
      ∧ title ≠ engine.title
  /-- Nothing else is told at the title or under it, and nothing twice. -/
  sole : (told.filter (place ++ [.field "title"] <+: ·.path)).length ≤ 1
  kinds : ∀ d ∈ told, place ++ [.field "title"] <+: d.path →
    d.kind = .missingField ∨ d.kind = .wrongShape ∨ d.kind = .inconsistent

namespace Block

variable {quote : Members} {limit room : Nat} {place : Path} {all : List Diagnostic}
  {engine : Option Engine} {title : Option Value} {f : Finding}

theorem mem_engineSurvey : f ∈ engineSurvey quote ↔
    (∀ engine, ¬NamesEngine quote engine)
      ∧ f = .defect [.field "engine"] (.invalid (quote.get? "engine")) := by
  unfold engineSurvey
  split
  · rename_i e hengine
    have hnames : NamesEngine quote e := engine?_eq_some_iff.mp hengine
    exact ⟨nofun, fun h => absurd hnames (h.1 e)⟩
  · rename_i hengine
    have hnone : ∀ engine, ¬NamesEngine quote engine := by
      intro e hnames
      rw [engine?_eq_some_iff.mpr hnames] at hengine
      cases hengine
    rw [Survey.mem_atField]
    exact ⟨fun h => ⟨hnone, h⟩, And.right⟩

/-- What can be wrong with a title. -/
inductive TitleDefect (engine : Option Engine) (title : Option Value) : Defect → Prop
  | absent : title = none ∨ title = some .null → TitleDefect engine title .absent
  | shape {held : Value} : title = some held → held ≠ .null → (∀ s, held ≠ .string s) →
      TitleDefect engine title (.shape .string)
  | mismatch {s : String} {e : Engine} : title = some (.string s) → engine = some e →
      s ≠ e.title → TitleDefect engine title (.titleMismatch e)

theorem mem_titleSurvey : f ∈ titleSurvey engine title ↔
    ∃ what, TitleDefect engine title what ∧ f = .defect [.field "title"] what := by
  constructor
  · intro hf
    unfold titleSurvey at hf
    split at hf
    · exact ⟨_, .absent (.inl rfl), Survey.mem_atField.mp hf⟩
    · exact ⟨_, .absent (.inr rfl), Survey.mem_atField.mp hf⟩
    · split at hf
      · split at hf
        · cases hf
        · rename_i hne
          exact ⟨_, .mismatch rfl rfl hne, Survey.mem_atField.mp hf⟩
      · cases hf
    · rename_i hnull hstring
      exact ⟨_, .shape rfl (fun h => hnull (h ▸ rfl)) hstring, Survey.mem_atField.mp hf⟩
  · rintro ⟨what, hdefect, rfl⟩
    cases hdefect with
    | absent h => rcases h with rfl | rfl <;> exact Survey.mem_atField.mpr rfl
    | @shape held h hnull hstring =>
      subst h
      cases held with
      | null => exact absurd rfl hnull
      | string s => exact absurd rfl (hstring s)
      | _ => exact Survey.mem_atField.mpr rfl
    | mismatch htitle hengine hne =>
      subst htitle hengine
      rw [titleSurvey, if_neg hne]
      exact Survey.mem_atField.mpr rfl

/-- Of a title one thing is found at most. -/
theorem length_titleSurvey (engine : Option Engine) (title : Option Value) :
    (titleSurvey engine title).length ≤ 1 := by
  unfold titleSurvey
  split
  · exact Nat.le_refl 1
  · exact Nat.le_refl 1
  · split
    · split
      · exact Nat.zero_le 1
      · exact Nat.le_refl 1
    · exact Nat.zero_le 1
  · exact Nat.le_refl 1

end Block

/-- Defects are told one by one. -/
theorem Survey.length_diagnose {limit room : Nat} {base : Path} {s : Survey}
    (h : All Finding.IsDefect s) : (s.diagnose limit room base).length = s.length := by
  induction s with
  | nil => rfl
  | cons f rest ih =>
    cases f with
    | block place v => exact (h _ List.mem_cons_self).elim
    | defect place what =>
      have hrest := ih fun g hg => h g (List.mem_cons_of_mem _ hg)
      rw [diagnose, List.flatMap_cons, Finding.diagnose_defect, List.length_append,
        List.length_singleton, List.length_cons, Nat.add_comm]
      exact congrArg (· + 1) hrest

/-- What is told at a field is found there, if nothing else is found at the field or under it. -/
theorem Survey.isTold_iff {limit room : Nat} {place : Path} {key : String} {s : Survey}
    {all : List Diagnostic}
    (hall : all.filter (place ++ [.field key] <+: ·.path) = s.diagnose limit room place)
    (hs : ∀ f ∈ s, ∃ what, f = .defect [.field key] what) (kind : DefectKind) :
    IsTold all kind (place ++ [.field key]) ↔
      ∃ what, .defect [.field key] what ∈ s ∧ what.kind = kind := by
  constructor
  · rintro ⟨d, hd, hkind, hpath⟩
    have htold : d ∈ s.diagnose limit room place := by
      rw [← hall]
      exact List.mem_filter.mpr ⟨hd, decide_eq_true (hpath ▸ List.prefix_rfl)⟩
    obtain ⟨f, hf, hd⟩ := List.mem_flatMap.mp htold
    obtain ⟨what, rfl⟩ := hs f hf
    rw [Finding.diagnose_defect, List.mem_singleton] at hd
    exact ⟨what, hf, by rw [← hkind, hd, Defect.diagnostic_kind]⟩
  · rintro ⟨what, hwhat, rfl⟩
    have htold : what.diagnostic (place ++ [.field key]) ∈ s.diagnose limit room place := by
      refine List.mem_flatMap.mpr ⟨_, hwhat, ?_⟩
      rw [Finding.diagnose_defect]
      exact List.mem_singleton_self _
    rw [← hall] at htold
    exact ⟨_, (List.mem_filter.mp htold).1, rfl, rfl⟩

namespace Block

variable {quote : Members} {limit room : Nat} {place : Path} {all : List Diagnostic}

/-- **`coupled`** -- what is told of a quote couples its title with its engine. -/
theorem coupled (hnamed : Named quote "engineQuote")
    (h : Isolated place (diagnostics limit (room + 1) (place, .object quote)) all) :
    Coupled quote place all := by
  obtain ⟨hengine, htitle, -⟩ := quote_filters hnamed h
  have hengineTold := Survey.isTold_iff hengine fun f hf => ⟨_, (mem_engineSurvey.mp hf).2⟩
  -- What is told at the title is one of its three defects.
  have htitleTold (kind : DefectKind) : IsTold all kind (place ++ [.field "title"]) ↔
      ∃ what, TitleDefect (engine? quote) (quote.get? "title") what ∧ what.kind = kind := by
    rw [Survey.isTold_iff htitle fun f hf => (mem_titleSurvey.mp hf).imp fun _ => And.right]
    simp only [mem_titleSurvey, Finding.defect.injEq, true_and, exists_eq_right']
  refine ⟨?_, ?_, ?_, ?_, ?_, ?_⟩
  · rw [hengineTold]
    constructor
    · rintro ⟨what, hwhat, -⟩
      exact (mem_engineSurvey.mp hwhat).1
    · exact fun hnone => ⟨_, mem_engineSurvey.mpr ⟨hnone, rfl⟩, rfl⟩
  · rw [htitleTold]
    constructor
    · rintro ⟨_, hdefect, hkind⟩
      cases hdefect with
      | absent h => exact h
      | shape => cases hkind
      | mismatch => cases hkind
    · exact fun h => ⟨_, .absent h, rfl⟩
  · rw [htitleTold]
    constructor
    · rintro ⟨_, hdefect, hkind⟩
      cases hdefect with
      | absent => cases hkind
      | shape h hnull hstring => exact ⟨_, h, hnull, hstring⟩
      | mismatch => cases hkind
    · rintro ⟨held, h, hnull, hstring⟩
      exact ⟨_, .shape h hnull hstring, rfl⟩
  · rw [htitleTold]
    constructor
    · rintro ⟨_, hdefect, hkind⟩
      cases hdefect with
      | absent => cases hkind
      | shape => cases hkind
      | mismatch h hengine hne => exact ⟨_, _, h, engine?_eq_some_iff.mp hengine, hne⟩
    · rintro ⟨s, e, h, hengine, hne⟩
      exact ⟨_, .mismatch h (engine?_eq_some_iff.mpr hengine) hne, rfl⟩
  · rw [htitle, Survey.length_diagnose (all_titleSurvey Finding.stable_isDefect _ _)]
    exact length_titleSurvey _ _
  · intro d hd hunder
    have htold : d ∈ all.filter (place ++ [.field "title"] <+: ·.path) :=
      List.mem_filter.mpr ⟨hd, decide_eq_true hunder⟩
    rw [htitle] at htold
    obtain ⟨f, hf, hd⟩ := List.mem_flatMap.mp htold
    obtain ⟨what, hdefect, rfl⟩ := mem_titleSurvey.mp hf
    rw [Finding.diagnose_defect, List.mem_singleton] at hd
    rw [hd, Defect.diagnostic_kind]
    cases hdefect with
    | absent => exact .inl rfl
    | shape => exact .inr (.inl rfl)
    | mismatch => exact .inr (.inr rfl)

end Block

/-! ## Names of engines -/

/-- Lower case makes no ASCII character out of another. -/
theorem toNat_lt_of_toLower {c : Char} (h : c.toLower.toNat < 128) : c.toNat < 128 := by
  unfold Char.toLower at h
  split at h
  · rename_i hupper
    have hle : c.toNat ≤ 90 := UInt32.le_iff_toNat_le.mp hupper.2
    omega
  · exact h

theorem Engine.ascii_tag (engine : Engine) : ∀ c ∈ (Tagged.tag engine).toList, c.toNat < 128 := by
  have hall : (Tagged.tag engine).toList.all (fun c => decide (c.toNat < 128)) = true := by
    cases engine <;> decide
  intro c hc
  exact of_decide_eq_true (List.all_eq_true.mp hall c hc)

/-- **`ascii`** -- an engine is named in ASCII letters only. -/
theorem Grammar.NamesEngine.ascii {quote : Members} {engine : Engine} {name : String}
    (h : NamesEngine quote engine) (hname : quote.get? "engine" = some (.string name)) :
    ∀ c ∈ name.toList, c.toNat < 128 := by
  obtain ⟨other, hother, hlower⟩ := h
  obtain rfl : other = name := by simpa [hname] using hother.symm
  intro c hc
  apply toNat_lt_of_toLower
  apply engine.ascii_tag
  rw [← hlower]
  exact List.mem_map_of_mem hc

/-! ## What the quote holds -/

/-- Both lists have their run isolated. -/
theorem Framed.isolated {place : Path} {run run' all all' : List Diagnostic}
    (h : Framed place run run' all all') : Isolated place run all ∧ Isolated place run' all' := by
  obtain ⟨before, after, rfl, rfl, hunder, hunder', hother⟩ := h
  exact ⟨⟨before, after, rfl, hunder, hother⟩, before, after, rfl, hunder', hother⟩

/-- The members of a quote with any other engine and any other title, or without. -/
def Block.SameBesides (quote other : Members) : Prop :=
  ∀ key, key ≠ "engine" → key ≠ "title" → other.get? key = quote.get? key

/-- **`blocks_alike`** -- what a quote holds is told the same, whatever its engine and title are. -/
theorem Chapter.blocks_alike {limit level : Nat} {v : Value} {place : Path}
    {quote other : Members} (h : Stands v (.block level) place (.object quote))
    (hnamed : Named quote "engineQuote") (hlevel : level ≤ limit)
    (hsame : Block.SameBesides quote other) :
    (diagnostics limit (v.put place (.object other))).filter
        (place ++ [.field "blocks"] <+: ·.path)
      = (diagnostics limit v).filter (place ++ [.field "blocks"] <+: ·.path) := by
  obtain ⟨room, rfl⟩ := Nat.exists_eq_add_of_le hlevel
  have hroom : room + 1 + level = level + room + 1 := by omega
  have hother : Named other "engineQuote" := (hsame "type" (by decide) (by decide)).trans hnamed
  have hblocks : other.get? "blocks" = quote.get? "blocks" :=
    hsame "blocks" (by decide) (by decide)
  obtain ⟨hold, hnew⟩ := (framed_block h hroom (.object other)).isolated
  rw [(Block.quote_filters hnamed hold).2.2, (Block.quote_filters hother hnew).2.2, Survey.filled,
    Survey.filled, hblocks]

/-! ## The case of names -/

/-- **`Chapter.Recased`** -- the name of an engine in a quote somewhere in a chapter is written in
another case. -/
inductive Chapter.Recased (v : Value) : Value → Prop
  | mk {depth : Nat} {place : Path} {quote : Members} {engine : Engine} {name name' : String} :
      Lies v depth place (.object quote) → Named quote "engineQuote" →
      quote.get? "engine" = some (.string name) → NamesEngine quote engine →
      name'.toList.map Char.toLower = name.toList.map Char.toLower →
      Recased v (v.put (place ++ [.field "engine"]) (.string name'))

/-- The members of a quote with the name of its engine written anew. -/
def Block.rename (quote : Members) (name : String) : Members :=
  Members.modify "engine" (fun _ => .string name) quote

section Rename

variable {quote : Members} {engine : Engine} {name name' : String}

theorem Block.get?_rename_of_ne {key : String} (hkey : key ≠ "engine") :
    (rename quote name).get? key = quote.get? key := by
  rw [rename, Members.get?_modify, if_neg hkey]

theorem Block.put_engine (quote : Members) (name : String) :
    (Value.object quote).put [.field "engine"] (.string name) = .object (rename quote name) := by
  simp only [Value.put, rename]

theorem Block.namesEngine_rename (h : NamesEngine quote engine)
    (hname : quote.get? "engine" = some (.string name))
    (hlower : name'.toList.map Char.toLower = name.toList.map Char.toLower) :
    NamesEngine (rename quote name') engine := by
  obtain ⟨other, hother, htag⟩ := h
  obtain rfl : other = name := by simpa [hname] using hother.symm
  refine ⟨name', ?_, hlower.trans htag⟩
  rw [rename, Members.get?_modify, if_pos rfl, hname, Option.map_some]

/-- A look at the quote finds the same. -/
theorem Block.survey_rename (hnamed : Named quote "engineQuote")
    (h : NamesEngine quote engine) (hname : quote.get? "engine" = some (.string name))
    (hlower : name'.toList.map Char.toLower = name.toList.map Char.toLower) :
    survey (.object (rename quote name')) = survey (.object quote) := by
  have hold : engine? quote = some engine := engine?_eq_some_iff.mpr h
  have hnew : engine? (rename quote name') = some engine :=
    engine?_eq_some_iff.mpr (namesEngine_rename h hname hlower)
  have hnamed' : Named (rename quote name') "engineQuote" :=
    (get?_rename_of_ne (by decide)).trans hnamed
  have htitle : (rename quote name').get? "title" = quote.get? "title" :=
    get?_rename_of_ne (by decide)
  have hblocks : (rename quote name').get? "blocks" = quote.get? "blocks" :=
    get?_rename_of_ne (by decide)
  have hsurvey {owner : Members} (howner : Named owner "engineQuote") :
      survey (.object owner) = contract owner .engineQuote := survey_of_named howner
  rw [hsurvey hnamed, hsurvey hnamed', contract, contract, engineSurvey, engineSurvey, hold, hnew,
    htitle, Survey.filled, Survey.filled, hblocks]

end Rename

/-! ## Blocks below the quote of an engine -/

/-- **`Block.Unread`** -- some steps from a block in the quote of an engine lead to what is not
read: the block is no paragraph, and its type lies elsewhere. -/
def Block.Unread (w : Value) : Path → Prop
  | [] => True
  | step :: _ => ∃ block key, w = .object block ∧ ¬Named block "paragraph" ∧ step = .field key
    ∧ key ≠ "type"

section Unread

variable {w u : Value} {inner steps : Path} {block : Members}

theorem Block.Unread.append (h : Unread w inner) (hu : w.resolve? inner = some u)
    (hsteps : Unread u steps) : Unread w (inner ++ steps) := by
  cases inner with
  | nil =>
    obtain rfl := Option.some.inj hu
    exact hsteps
  | cons step rest => exact h

theorem Block.unread_of_named {word key : String} (h : Named block word)
    (hword : word ≠ "paragraph") (hkey : key ≠ "type") (rest : Path) :
    Unread (.object block) (.field key :: rest) :=
  ⟨block, key, rfl, fun hnamed => hword (h.eq hnamed), rfl, hkey⟩

theorem Block.Holds.unread (h : Holds block inner) : Unread (.object block) inner := by
  cases h with
  | blockquote i hnamed => exact unread_of_named hnamed (by decide) (by decide) _
  | callout i hnamed => exact unread_of_named hnamed (by decide) (by decide) _
  | list i j hnamed => exact unread_of_named hnamed (by decide) (by decide) _
  | table r c i hnamed => exact unread_of_named hnamed (by decide) (by decide) _

/-- **`stands_or_unread`** -- a block of a chapter stands on a level, or it is in the quote of an
engine, where it is not read if it is not the paragraph itself. -/
theorem Lies.stands_or_unread {v b : Value} {depth : Nat} {place : Path}
    (h : Lies v depth place b) :
    (∃ level, Stands v (.block level) place b)
      ∨ ∃ outer inner w, Stands v .quotedBlock outer w ∧ place = outer ++ inner
        ∧ w.resolve? inner = some b ∧ Block.Unread w inner := by
  induction h with
  | top hb => exact .inl ⟨1, .top hb⟩
  | held _ hholds hb ih =>
    rcases ih with ⟨level, hstands⟩ | ⟨outer, inner, w, hstands, rfl, hinner, hunread⟩
    · exact .inl ⟨level + 1, hstands.held hholds hb⟩
    · refine .inr ⟨outer, _, w, hstands, List.append_assoc _ _ _, ?_, ?_⟩
      · rw [Value.resolve?_append, hinner, Option.bind_some, hb]
      · exact hunread.append hinner hholds.unread
  | quoted _ hnamed hb ih =>
    rcases ih with ⟨level, hstands⟩ | ⟨outer, inner, w, hstands, rfl, hinner, hunread⟩
    · have hquoted := hstands.step (.engineQuote hnamed) hb
      exact .inr ⟨_, [], _, hquoted, (List.append_nil _).symm, rfl, trivial⟩
    · refine .inr ⟨outer, _, w, hstands, List.append_assoc _ _ _, ?_, ?_⟩
      · rw [Value.resolve?_append, hinner, Option.bind_some, hb]
      · exact hunread.append hinner (Block.unread_of_named hnamed (by decide) (by decide) _)

/-- What is not read may be anything. -/
theorem Chapter.edit_of_unread {v : Value} {outer : Path} {step : Step}
    (hstands : Stands v .quotedBlock outer w) (hunread : Block.Unread w (step :: steps))
    (new : Value) : Edit v (v.put (outer ++ step :: steps) new) := by
  obtain ⟨block, key, rfl, hnamed, rfl, hkey⟩ := hunread
  have hreads : Role.quotedBlock.reads block = [("type", .content)] := by
    rw [Role.reads, if_neg fun hkind => hnamed (Block.kind?_eq_some_iff.mp hkind)]
  have hretouched : Retouched .quotedBlock block
      (Members.modify key (fun w => w.put steps new) block) := by
    rw [Retouched, hreads]
    refine List.forall_mem_singleton.mpr ?_
    show Members.get? _ "type" = Members.get? _ "type"
    rw [Members.get?_modify, if_neg hkey.symm]
  have hput : (Value.object block).put (.field key :: steps) new
      = .object (Members.modify key (fun w => w.put steps new) block) := by
    rw [Value.put]
  have hrole : Role.quotedBlock ≠ .chapter := by
    intro heq
    cases heq
  rw [Value.put_append (hstands.resolve?_eq hrole), hput]
  exact .node hstands hrole hretouched

end Unread

/-! ## Quotes in a report -/

/-- A chapter is told as before when the name of an engine is written in another case. -/
theorem Chapter.Recased.diagnostics_eq {v v' : Value} (h : Recased v v') (limit : Nat) :
    diagnostics limit v' = diagnostics limit v := by
  obtain ⟨hlies, hnamed, hname, hengine, hlower⟩ := h
  rcases hlies.stands_or_unread with
    ⟨level, hstands⟩ | ⟨outer, inner, w, hstands, rfl, hinner, hunread⟩
  · have hlook := Block.survey_rename hnamed hengine hname hlower
    rw [Value.put_append (hstands.resolve?_eq nofun), Block.put_engine]
    exact toldAlike_put hstands nofun nofun (.of_eq hlook) limit limit []
  · have hfield := hunread.append hinner
      (Block.unread_of_named hnamed (by decide) (show "engine" ≠ "type" by decide) [])
    obtain ⟨step, rest, hsteps⟩ := List.exists_cons_of_ne_nil
      (List.append_ne_nil_of_right_ne_nil inner (List.cons_ne_nil (Step.field "engine") []))
    rw [hsteps] at hfield
    rw [List.append_assoc, hsteps]
    exact (edit_of_unread hstands hfield _).diagnostics_eq limit

/-- **`engine_coupled`** -- in every report, what is told of the engine and the title of a quote
that is reached is what the two call for, and what the quote holds is told whatever they are. No
name of an engine has a character beyond ASCII, and no number of names written in another case
changes a report. -/
theorem Validator.engine_coupled (validator : Validator) (v : Value) :
    (∀ level place quote, Stands v (.block level) place (.object quote) →
      Named quote "engineQuote" → level ≤ validator.limit →
        Block.Coupled quote place (validator.report v).errors
        ∧ ∀ other, Block.SameBesides quote other →
          (validator.report (v.put place (.object other))).errors.filter
              (place ++ [.field "blocks"] <+: ·.path)
            = (validator.report v).errors.filter (place ++ [.field "blocks"] <+: ·.path))
    ∧ (∀ quote engine name, NamesEngine quote engine →
      quote.get? "engine" = some (.string name) → ∀ c ∈ name.toList, c.toNat < 128)
    ∧ ∀ v', Relation.ReflTransGen Chapter.Recased v v' →
      validator.report v' = validator.report v := by
  refine ⟨?_, ?_, ?_⟩
  · intro level place quote hstands hnamed hlevel
    obtain ⟨room, hlimit⟩ := Nat.exists_eq_add_of_le hlevel
    have hroom : room + 1 + level = validator.limit + 1 := by omega
    have hisolated := Chapter.isolated_block (Chapter.mem_blocksAt_iff.mpr hstands) hroom
    refine ⟨Block.coupled hnamed hisolated, ?_⟩
    intro other hsame
    exact Chapter.blocks_alike hstands hnamed hlevel hsame
  · exact fun quote engine name hengine hname => hengine.ascii hname
  · intro v' hrecased
    -- By induction on the number of names that are written anew.
    induction hrecased with
    | refl => rfl
    | tail _ hstep ih => rw [← ih, report, report, hstep.diagnostics_eq]

/-- The same paragraph in a quote without engine and title. -/
def anonymousQuote : Members :=
  [("blocks", .array [oneParagraph]), ("type", .string "engineQuote")]

/-- A quote in order, the same quote without engine and title, and the same with the name of the
engine in capitals. -/
theorem Validator.engine_coupled_media :
    Stands quoteChapter (.block 1) [.field "blocks", .index 0] (.object engineQuote)
      ∧ Named engineQuote "engineQuote" ∧ 1 ≤ standard.limit
      ∧ Block.SameBesides engineQuote anonymousQuote
      ∧ Block.Coupled engineQuote [.field "blocks", .index 0] (standard.report quoteChapter).errors
      ∧ (standard.report (quoteChapter.put [.field "blocks", .index 0]
            (.object anonymousQuote))).errors.filter
          ([.field "blocks", .index 0, .field "blocks"] <+: ·.path)
        = (standard.report quoteChapter).errors.filter
          ([.field "blocks", .index 0, .field "blocks"] <+: ·.path)
      ∧ Relation.ReflTransGen Chapter.Recased quoteChapter
          (quoteChapter.put [.field "blocks", .index 0, .field "engine"] (.string "MEDIA"))
      ∧ standard.report
            (quoteChapter.put [.field "blocks", .index 0, .field "engine"] (.string "MEDIA"))
          = standard.report quoteChapter := by
  have hstands : Stands quoteChapter (.block 1) [.field "blocks", .index 0]
      (.object engineQuote) := .top rfl
  have hnamed : Named engineQuote "engineQuote" := rfl
  have hlimit : 1 ≤ standard.limit := by decide
  have hsame : Block.SameBesides engineQuote anonymousQuote := by
    intro key hengine htitle
    simp [engineQuote, anonymousQuote, Members.get?_cons, hengine, htitle]
  have hlies : Lies quoteChapter 1 [.field "blocks", .index 0] (.object engineQuote) := .top rfl
  have hmedia : NamesEngine engineQuote .media := ⟨"media", rfl, by decide⟩
  have hlower : "MEDIA".toList.map Char.toLower = "media".toList.map Char.toLower := by decide
  have hrecased := Relation.ReflTransGen.single
    (Chapter.Recased.mk hlies hnamed rfl hmedia hlower)
  obtain ⟨hcoupled, -, hcase⟩ := engine_coupled standard quoteChapter
  obtain ⟨hquote, hblocks⟩ := hcoupled 1 _ engineQuote hstands hnamed hlimit
  exact ⟨hstands, hnamed, hlimit, hsame, hquote, hblocks anonymousQuote hsame, hrecased,
    hcase _ hrecased⟩

end ChapterCheck
