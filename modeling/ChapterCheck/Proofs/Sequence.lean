/-
# ChapterCheck.Proofs.Sequence -- the order in which defects are told

Any two findings of a survey are `Finding.Before` one another, in the order in which the survey has
them. As a rule their places part, and where they part by two elements of an array the earlier
element comes first (`Path.Precedes`). There are four exceptions, and the relation names them: the
header field `blocks`, the data of a widget, and a mark in the quote of an engine, which is told of
in two rounds.

The relation is `Local`, so it goes through the combinators and holds throughout a survey
(`Block.pairwise_before`). The walk carries it from survey to survey: the diagnostics of a chapter
are in the same order as the findings that they tell of (`Chapter.pairwise_before`).
-/
import ChapterCheck.Proofs.Walk

namespace ChapterCheck

open Json

/-! ## Places in order -/

/-- **`Step.Precedes`** -- two steps from one node, in the order of the document. Elements are
counted upward; of two fields it is only asked that they are not the same. -/
def Step.Precedes : Step → Step → Prop
  | .field m, .field n => m ≠ n
  | .index i, .index j => i < j
  | _, _ => False

theorem Step.Precedes.ne {a b : Step} (h : a.Precedes b) : a ≠ b := by
  rintro rfl
  cases a with
  | field name => exact h rfl
  | index place => exact Nat.lt_irrefl place h

namespace Path

variable {common common' p q p' q' : Path} {a b a' b' : Step}

/-- **`PartAt`** -- two paths go along `common` together, and then on by the steps `a` and `b`. -/
def PartAt (common : Path) (a b : Step) (p q : Path) : Prop :=
  common ++ [a] <+: p ∧ common ++ [b] <+: q

theorem PartAt.mono (h : PartAt common a b p q) (hp : p <+: p') (hq : q <+: q') :
    PartAt common a b p' q' :=
  ⟨h.1.trans hp, h.2.trans hq⟩

theorem PartAt.under (base : Path) (h : PartAt common a b p q) :
    PartAt (base ++ common) a b (base ++ p) (base ++ q) := by
  rw [PartAt, List.append_assoc, List.append_assoc, List.prefix_append_right_inj,
    List.prefix_append_right_inj]
  exact h

theorem PartAt.apart (h : PartAt common a b p q) (hne : a ≠ b) : Apart p q :=
  (apart_append_iff.mpr (apart_of_ne hne [] [])).extend h.1 h.2

/-- One path goes on by one step only. -/
theorem eq_of_append_under (ha : common ++ [a] <+: p) (hb : common ++ [b] <+: p) : a = b := by
  have hlength : (common ++ [a]).length = (common ++ [b]).length := by simp
  have hunder := List.prefix_of_prefix_length_le ha hb (Nat.le_of_eq hlength)
  simpa using hunder.eq_of_length hlength

/-- Where two paths have parted, they have nothing more in common. -/
theorem PartAt.length_le (h : PartAt common a b p q) (hne : a ≠ b)
    (h' : PartAt common' a' b' p q) : common'.length ≤ common.length := by
  apply Nat.le_of_not_lt
  intro hlt
  have hlength (c : Step) : (common ++ [c]).length ≤ common'.length := by
    rw [List.length_append, List.length_singleton]
    omega
  have hp : common ++ [a] <+: common' :=
    List.prefix_of_prefix_length_le h.1 ((List.prefix_append _ _).trans h'.1) (hlength a)
  have hq : common ++ [b] <+: common' :=
    List.prefix_of_prefix_length_le h.2 ((List.prefix_append _ _).trans h'.2) (hlength b)
  exact hne (eq_of_append_under hp hq)

/-- Two paths part in one way only. -/
theorem PartAt.unique (h : PartAt common a b p q) (hne : a ≠ b) (h' : PartAt common' a' b' p q)
    (hne' : a' ≠ b') : common = common' ∧ a = a' ∧ b = b' := by
  have hlength : (common ++ [a]).length = (common' ++ [a']).length := by
    have := Nat.le_antisymm (h'.length_le hne' h) (h.length_le hne h')
    simp [this]
  have hunder := List.prefix_of_prefix_length_le h.1 h'.1 (Nat.le_of_eq hlength)
  obtain ⟨rfl, hstep⟩ := List.append_inj' (hunder.eq_of_length hlength) rfl
  exact ⟨rfl, List.singleton_inj.mp hstep, eq_of_append_under h.2 h'.2⟩

/-- **`Precedes`** -- two paths part, and where they do, the step of the one precedes that of the
other. -/
def Precedes (p q : Path) : Prop :=
  ∃ common a b, a.Precedes b ∧ PartAt common a b p q

/-- Paths stay in order, however far they go on. -/
theorem Precedes.mono (h : Precedes p q) (hp : p <+: p') (hq : q <+: q') : Precedes p' q' := by
  obtain ⟨common, a, b, hab, hpart⟩ := h
  exact ⟨common, a, b, hab, hpart.mono hp hq⟩

theorem Precedes.under (base : Path) (h : Precedes p q) : Precedes (base ++ p) (base ++ q) := by
  obtain ⟨common, a, b, hab, hpart⟩ := h
  exact ⟨base ++ common, a, b, hab, hpart.under base⟩

theorem Precedes.apart (h : Precedes p q) : Apart p q := by
  obtain ⟨common, a, b, hab, hpart⟩ := h
  exact hpart.apart hab.ne

/-- Where paths in order part, their steps are in order. -/
theorem Precedes.at_parting (h : Precedes p q) (hpart : PartAt common a b p q) (hne : a ≠ b) :
    a.Precedes b := by
  obtain ⟨common', a', b', hab, hpart'⟩ := h
  obtain ⟨-, rfl, rfl⟩ := hpart'.unique hab.ne hpart hne
  exact hab

theorem precedes_of_index {i j : Nat} (h : i < j) (p q : Path) :
    Precedes (.index i :: p) (.index j :: q) :=
  ⟨[], .index i, .index j, h, List.prefix_append [_] p, List.prefix_append [_] q⟩

theorem precedes_of_field {m n : String} (hne : m ≠ n) (hp : [.field m] <+: p)
    (hq : [.field n] <+: q) : Precedes p q :=
  ⟨[], .field m, .field n, hne, hp, hq⟩

end Path

/-! ## Findings in order -/

/-- What the contract of a mark has to say of it. -/
def Defect.OfMark (what : Defect) : Prop :=
  what = .shape .object ∨ ∃ value, what = .unsupported value

/-- **`Finding.Before`** -- how two findings of one survey are told one before the other. -/
inductive Finding.Before : Finding → Finding → Prop
  /-- Their places part, in the order of the document. -/
  | apart {f g : Finding} : f.place.Precedes g.place → Before f g
  /-- A header field is missed, and then found to hold no blocks. -/
  | header {place : Path} :
      Before (.defect place .headerAbsent) (.defect place (.shape .filledArray))
  /-- The keys of a widget are missed before its data. -/
  | widget {place : Path} {key : String} : key ∈ ["widgetId", "widgetType"] →
      Before (.defect (place ++ [.field key]) .absent) (.defect place .dataAbsent)
  /-- A mark that is not in the vocabulary is not allowed in a quote either. -/
  | again {place : Path} {value : Option Value} :
      Before (.defect place (.unsupported value)) (.defect place (.markNotAllowed Run.quotedMarks))
  /-- A mark may be found to be not allowed after a later one has been found to be none. -/
  | late {run rest : Path} {i j : Nat} {what : Defect} : j < i → what.OfMark →
      Before (.defect (run ++ .field "marks" :: .index i :: rest) what)
        (.defect (run ++ [.field "marks", .index j, .field "type"])
          (.markNotAllowed Run.quotedMarks))

theorem Finding.local_before : Survey.Local Finding.Before where
  under := by
    intro f g base h
    cases h with
    | apart h =>
      refine .apart ?_
      rw [place_under, place_under]
      exact h.under base
    | header => exact .header
    | widget hkey =>
      rw [under, ← List.append_assoc]
      exact .widget hkey
    | again => exact .again
    | late hlt hwhat =>
      rw [under, under, ← List.append_assoc, ← List.append_assoc]
      exact .late hlt hwhat
  elements := by
    intro f g i j hlt
    refine .apart ?_
    rw [place_under, place_under]
    exact Path.precedes_of_index hlt _ _

/-- Where two findings lie: their places part, or they are at one place, or it is a widget. -/
theorem Finding.Before.place_cases {f g : Finding} (h : f.Before g) :
    Path.Apart f.place g.place
      ∨ (∃ place, f = .defect place .headerAbsent ∧ g = .defect place (.shape .filledArray))
      ∨ (∃ place value, f = .defect place (.unsupported value)
        ∧ g = .defect place (.markNotAllowed Run.quotedMarks))
      ∨ ∃ place, ∃ key ∈ ["widgetId", "widgetType"],
        f = .defect (place ++ [.field key]) .absent ∧ g = .defect place .dataAbsent := by
  cases h with
  | apart hprecedes => exact .inl hprecedes.apart
  | header => exact .inr (.inl ⟨_, rfl, rfl⟩)
  | widget hkey => exact .inr (.inr (.inr ⟨_, _, hkey, rfl, rfl⟩))
  | again => exact .inr (.inr (.inl ⟨_, _, rfl, rfl⟩))
  | @late run rest i j what hlt =>
    have hsteps : Step.index i ≠ .index j := fun heq => Nat.ne_of_gt hlt (Step.index.inj heq)
    have hmarks : Path.PartAt (run ++ [.field "marks"]) (.index i) (.index j)
        (run ++ .field "marks" :: .index i :: rest)
        (run ++ [.field "marks", .index j, .field "type"]) := by
      constructor <;> simp
    exact .inl (hmarks.apart hsteps)

/-! ## Surveys field by field -/

/-- A survey is **`Ordered`** along some keys -- its findings are in order, and each lies at or
under one of the keys. -/
structure Survey.Ordered (keys : List String) (s : Survey) : Prop where
  before : s.Pairwise Finding.Before
  keyed : ∀ f ∈ s, ∃ key ∈ keys, [.field key] <+: f.place

namespace Survey

variable {keys keys' : List String} {owner : Members} {key : String} {check : Value → Survey}
  {s t : Survey}

theorem ordered_nil (keys : List String) : Ordered keys [] :=
  ⟨List.Pairwise.nil, nofun⟩

theorem ordered_atField (key : String) (what : Defect) : Ordered [key] (atField key what) where
  before := List.pairwise_singleton _ _
  keyed := List.forall_mem_singleton.mpr ⟨key, List.mem_singleton_self key, List.prefix_rfl⟩

/-- What is told of different fields is in order. -/
theorem Ordered.append (hs : Ordered keys s) (ht : Ordered keys' t)
    (hne : ∀ key ∈ keys, key ∉ keys') : Ordered (keys ++ keys') (s ++ t) where
  before := by
    refine List.pairwise_append.mpr ⟨hs.before, ht.before, ?_⟩
    intro f hf g hg
    obtain ⟨m, hm, hfm⟩ := hs.keyed f hf
    obtain ⟨n, hn, hgn⟩ := ht.keyed g hg
    have hmn : m ≠ n := by
      rintro rfl
      exact hne m hm hn
    exact .apart (Path.precedes_of_field hmn hfm hgn)
  keyed := by
    intro f hf
    rcases List.mem_append.mp hf with hf | hf
    · obtain ⟨key, hkey, hfkey⟩ := hs.keyed f hf
      exact ⟨key, List.mem_append_left keys' hkey, hfkey⟩
    · obtain ⟨key, hkey, hfkey⟩ := ht.keyed f hf
      exact ⟨key, List.mem_append_right keys hkey, hfkey⟩

theorem ordered_require (owner : Members) (key : String) : Ordered [key] (require owner key) := by
  rw [require]
  split
  · exact ordered_nil [key]
  · exact ordered_atField key _

theorem ordered_word (α : Type) [Tagged α] (owner : Members) (key : String) :
    Ordered [key] (word α owner key) := by
  rw [word]
  split
  · exact ordered_nil [key]
  · exact ordered_atField key _

theorem ordered_filled (h : ∀ v, (check v).Pairwise Finding.Before) :
    Ordered [key] (filled owner key check) where
  before := Finding.local_before.pairwise_filled h
  keyed := fun _ hf => ⟨key, List.mem_singleton_self key, prefix_of_mem_filled hf⟩

end Survey

/-! ## Runs and marks -/

namespace Run

open Survey

theorem before_markSurvey (v : Value) : (markSurvey v).Pairwise Finding.Before := by
  refine pairwise_object fun mark => ?_
  split
  · exact List.Pairwise.nil
  · exact List.pairwise_singleton _ _

theorem ordered_marksSurvey (run : Members) : Ordered ["marks"] (marksSurvey run) := by
  unfold marksSurvey
  split
  · exact ordered_nil _
  · exact ordered_nil _
  · refine ⟨Finding.local_before.pairwise_under _ ?_, ?_⟩
    · exact Finding.local_before.pairwise_each fun v _ => before_markSurvey v
    · intro f hf
      obtain ⟨g, -, rfl⟩ := mem_under.mp hf
      rw [Finding.place_under]
      exact ⟨"marks", List.mem_singleton_self _, List.prefix_append _ _⟩
  · exact ordered_atField _ _

theorem before_survey (v : Value) : (survey v).Pairwise Finding.Before :=
  pairwise_object fun run =>
    ((ordered_require run "text").append (ordered_marksSurvey run) (by decide)).before

/-- What the contract finds of a mark says that it is none or that its type is unknown. -/
theorem mem_markSurvey {f : Finding} {v : Value} (hf : f ∈ markSurvey v) :
    f = .defect [] (.shape .object) ∧ v.asObject? = none
      ∨ ∃ value, f = .defect [.field "type"] (.unsupported value) := by
  cases v with
  | object mark =>
    rw [markSurvey, object] at hf
    split at hf
    · cases hf
    · exact .inr ⟨_, mem_atField.mp hf⟩
  | _ => exact .inl ⟨mem_here.mp hf, rfl⟩

/-- What the restriction finds of a mark says that it is not allowed. -/
theorem mem_markRestriction {f : Finding} {v : Value} (hf : f ∈ markRestriction quotedMarks v) :
    f = .defect [.field "type"] (.markNotAllowed quotedMarks)
      ∧ ∃ mark, v.asObject? = some mark := by
  cases v with
  | object mark =>
    rw [markRestriction] at hf
    split at hf
    · cases hf
    · exact ⟨mem_atField.mp hf, mark, rfl⟩
  | _ => cases hf

/-- What the contract finds at or under a mark of a run. -/
theorem mem_marksSurvey {f : Finding} {run : Members} {marks : List Value}
    (hmarks : run.get? "marks" = some (.array marks)) (hf : f ∈ marksSurvey run) :
    ∃ i u, marks[i]? = some u
      ∧ (f = .defect [.field "marks", .index i] (.shape .object) ∧ u.asObject? = none
        ∨ ∃ value, f = .defect [.field "marks", .index i, .field "type"] (.unsupported value)) := by
  rw [marksSurvey, hmarks] at hf
  obtain ⟨i, u, hu, g, hg, rfl⟩ := mem_under_each.mp hf
  refine ⟨i, u, hu, ?_⟩
  rcases mem_markSurvey hg with ⟨rfl, hnone⟩ | ⟨value, rfl⟩
  · exact .inl ⟨rfl, hnone⟩
  · exact .inr ⟨value, rfl⟩

/-- What the restriction finds of a run, it finds at the types of its marks. -/
theorem mem_restriction {f : Finding} {v : Value} (hf : f ∈ restriction quotedMarks v) :
    ∃ (run : Members) (marks : List Value), v = .object run
      ∧ run.get? "marks" = some (.array marks)
      ∧ ∃ (j : Nat) (u : Value) (mark : Members), marks[j]? = some u ∧ u.asObject? = some mark
        ∧ f = .defect [.field "marks", .index j, .field "type"] (.markNotAllowed quotedMarks) := by
  cases v with
  | object run =>
    have hfield : (Value.object run).field? "marks" = Members.get? run "marks" := rfl
    rw [restriction, hfield] at hf
    split at hf
    · rename_i marks hmarks
      obtain ⟨j, u, hu, g, hg, rfl⟩ := mem_under_each.mp hf
      obtain ⟨rfl, mark, hmark⟩ := mem_markRestriction hg
      exact ⟨run, marks, rfl, hmarks, j, u, mark, hu, hmark, rfl⟩
    · cases hf
  | _ => cases hf

theorem before_restriction (v : Value) : (restriction quotedMarks v).Pairwise Finding.Before := by
  unfold restriction
  split
  · refine Finding.local_before.pairwise_under _ (Finding.local_before.pairwise_each fun u _ => ?_)
    unfold markRestriction
    split
    · split
      · exact List.Pairwise.nil
      · exact List.pairwise_singleton _ _
    · exact List.Pairwise.nil
  · exact List.Pairwise.nil

/-- The restriction comes behind the contract: it speaks of marks of which the contract has spoken
already, and of no mark that is none. -/
theorem before_quotedSurvey (v : Value) : (quotedSurvey v).Pairwise Finding.Before := by
  refine List.pairwise_append.mpr ⟨before_survey v, before_restriction v, ?_⟩
  intro f hf g hg
  obtain ⟨run, marks, rfl, hmarks, j, u, mark, hu, hmark, rfl⟩ := mem_restriction hg
  rcases List.mem_append.mp hf with hf | hf
  · obtain ⟨key, hkey, hfkey⟩ := (ordered_require run "text").keyed f hf
    obtain rfl := List.mem_singleton.mp hkey
    exact .apart (Path.precedes_of_field (by decide) hfkey (List.prefix_append [_] _))
  · obtain ⟨i, w, hw, hcases⟩ := mem_marksSurvey hmarks hf
    -- The marks are in order, the same, or the other way round.
    rcases Nat.lt_trichotomy i j with hlt | rfl | hlt
    · refine .apart ?_
      have hprecedes (p : Path) : Path.Precedes ([.field "marks"] ++ .index i :: p)
          ([.field "marks"] ++ [.index j, .field "type"]) :=
        (Path.precedes_of_index hlt p _).under _
      rcases hcases with ⟨rfl, -⟩ | ⟨value, rfl⟩
      · exact hprecedes []
      · exact hprecedes [.field "type"]
    · obtain rfl : w = u := Option.some.inj (hw.symm.trans hu)
      rcases hcases with ⟨-, hnone⟩ | ⟨value, rfl⟩
      · rw [hmark] at hnone
        cases hnone
      · exact .again
    · rcases hcases with ⟨rfl, -⟩ | ⟨value, rfl⟩
      · exact @Finding.Before.late [] _ _ _ _ hlt (.inl rfl)
      · exact @Finding.Before.late [] _ _ _ _ hlt (.inr ⟨value, rfl⟩)

end Run

/-! ## Blocks -/

namespace Block

open Survey

theorem ordered_integer (owner : Members) (key : String) : Ordered [key] (integer owner key) := by
  unfold integer
  split
  · exact ordered_nil [key]
  · exact ordered_atField key _
  · exact ordered_atField key _

theorem ordered_engineSurvey (quote : Members) : Ordered ["engine"] (engineSurvey quote) := by
  unfold engineSurvey
  split
  · exact ordered_nil _
  · exact ordered_atField _ _

theorem ordered_titleSurvey (engine : Option Engine) (title : Option Value) :
    Ordered ["title"] (titleSurvey engine title) := by
  unfold titleSurvey
  split
  · exact ordered_atField _ _
  · exact ordered_atField _ _
  · split
    · split
      · exact ordered_nil _
      · exact ordered_atField _ _
    · exact ordered_nil _
  · exact ordered_atField _ _

theorem before_keyFigure (v : Value) : (keyFigure v).Pairwise Finding.Before := by
  refine pairwise_object fun item => ?_
  split
  · exact List.Pairwise.nil
  · exact List.pairwise_singleton _ _

theorem before_quotedParagraph (v : Value) : (quotedParagraph v).Pairwise Finding.Before := by
  refine pairwise_object fun block => ?_
  split
  · exact (ordered_filled Run.before_quotedSurvey).before
  · exact List.pairwise_singleton _ _

theorem before_block (v : Value) : (Survey.block v).Pairwise Finding.Before :=
  List.pairwise_singleton _ _

theorem before_listItem (v : Value) : (listItem v).Pairwise Finding.Before := by
  unfold listItem
  split
  · exact Finding.local_before.pairwise_each fun v _ => before_block v
  · exact List.pairwise_singleton _ _

theorem before_tableRow (v : Value) : (tableRow v).Pairwise Finding.Before := by
  refine (ordered_filled fun cell => ?_).before
  exact pairwise_object fun _ => (ordered_filled before_block).before

theorem before_contract (block : Members) (kind : BlockKind) :
    (contract block kind).Pairwise Finding.Before := by
  cases kind with
  | heading =>
    have hlevel := ordered_integer block "level"
    have htext := hlevel.append (ordered_require block "text") (by decide)
    exact (htext.append (ordered_require block "anchor") (by decide)).before
  | paragraph => exact (ordered_filled Run.before_survey).before
  | list =>
    have hstyle := ordered_word ListStyle block "listType"
    exact (hstyle.append (ordered_filled before_listItem) (by decide)).before
  | table => exact (ordered_filled before_tableRow).before
  | blockquote => exact (ordered_filled before_block).before
  | engineQuote =>
    have htitle := (ordered_engineSurvey block).append
      (ordered_titleSurvey (engine? block) (block.get? "title")) (by decide)
    exact (htitle.append (ordered_filled before_quotedParagraph) (by decide)).before
  | callout =>
    have htone := ordered_word Tone block "tone"
    exact (htone.append (ordered_filled before_block) (by decide)).before
  | kpiGrid => exact (ordered_filled before_keyFigure).before
  | widget =>
    have hkeys := (ordered_require block "widgetId").append (ordered_require block "widgetType")
      (by decide)
    refine List.pairwise_append.mpr ⟨hkeys.before, ?_, ?_⟩
    · split
      · exact List.Pairwise.nil
      · exact List.pairwise_singleton _ _
    · -- The data is missed at the widget itself, behind the keys that are missed under it.
      intro f hf g hg
      split at hg
      · cases hg
      · obtain rfl := mem_here.mp hg
        rcases List.mem_append.mp hf with hf | hf <;> obtain ⟨-, rfl⟩ := mem_require.mp hf
        · exact @Finding.Before.widget [] _ (by decide)
        · exact @Finding.Before.widget [] _ (by decide)
  | code => exact (ordered_require block "content").before
  | math => exact (ordered_require block "latex").before
  | figure =>
    rw [contract]
    split
    · exact Finding.local_before.pairwise_under _ (ordered_require _ "src").before
    · exact List.pairwise_singleton _ _

/-- **`pairwise_before`** -- what a look at a block finds is in order. -/
theorem pairwise_before (v : Value) : (survey v).Pairwise Finding.Before := by
  refine pairwise_object fun block => ?_
  split
  · exact before_contract block _
  · exact List.pairwise_singleton _ _

end Block

/-! ## Chapters -/

namespace Chapter

open Survey

/-- What is found of the header is that a field is missed. -/
theorem mem_headerSurvey {f : Finding} {chapter : Members} (hf : f ∈ headerSurvey chapter) :
    ∃ key ∈ header, f = .defect [.field key] .headerAbsent := by
  obtain ⟨key, hkey, hf⟩ := List.mem_flatMap.mp hf
  split at hf
  · cases hf
  · exact ⟨key, hkey, mem_atField.mp hf⟩

theorem before_headerSurvey (chapter : Members) :
    (headerSurvey chapter).Pairwise Finding.Before := by
  have hnodup : header.Pairwise (· ≠ ·) := by decide
  refine List.pairwise_flatMap.mpr ⟨?_, hnodup.imp ?_⟩
  · intro key _
    split
    · exact List.Pairwise.nil
    · exact List.pairwise_singleton _ _
  · intro m n hne f hf g hg
    split at hf
    · cases hf
    · split at hg
      · cases hg
      · obtain rfl := mem_atField.mp hf
        obtain rfl := mem_atField.mp hg
        exact .apart (Path.precedes_of_field hne List.prefix_rfl List.prefix_rfl)

theorem before_survey (v : Value) : (survey v).Pairwise Finding.Before := by
  cases v with
  | object chapter =>
    have hheader := Finding.local_before.pairwise_under [.field "chapter"]
      (before_headerSurvey chapter)
    rcases blocksSurvey_cases chapter with ⟨items, -, -, heq⟩ | ⟨-, heq⟩
    · have hblocks : (Survey.under [.field "blocks"] (each Survey.block items)).Pairwise
          Finding.Before :=
        Finding.local_before.pairwise_under _
          (Finding.local_before.pairwise_each fun v _ => Block.before_block v)
      rw [survey, heq]
      refine List.pairwise_append.mpr ⟨hheader, hblocks, ?_⟩
      intro f hf g hg
      obtain ⟨f, -, rfl⟩ := mem_under.mp hf
      obtain ⟨g, -, rfl⟩ := mem_under.mp hg
      refine .apart ?_
      rw [Finding.place_under, Finding.place_under]
      exact Path.precedes_of_field (by decide) (List.prefix_append _ _) (List.prefix_append _ _)
    · rw [survey, heq]
      refine List.pairwise_append.mpr ⟨hheader, List.pairwise_singleton _ _, ?_⟩
      intro f hf g hg
      obtain ⟨missed, hmissed, rfl⟩ := mem_under.mp hf
      obtain ⟨key, -, rfl⟩ := mem_headerSurvey hmissed
      obtain rfl := List.mem_singleton.mp hg
      by_cases hkey : key = "blocks"
      · rw [hkey]
        exact .header
      · have hprecedes : Path.Precedes [.field key] [.field "blocks"] :=
          Path.precedes_of_field hkey List.prefix_rfl List.prefix_rfl
        exact .apart (hprecedes.under [.field "chapter"])
  | _ => exact List.pairwise_singleton _ _

end Chapter

/-! ## Diagnostics in order -/

/-- Every diagnostic of the walk tells of some defect, and what is told of a plain finding is no
matter of the header. -/
theorem Finding.exists_defect_of_mem_diagnose {limit room : Nat} {base : Path} {f : Finding}
    {d : Diagnostic} (hd : d ∈ f.diagnose limit room base) :
    ∃ what : Defect, d = what.diagnostic d.path ∧ (f.Plain → what ≠ .headerAbsent) := by
  induction room generalizing base f with
  | zero =>
    cases f with
    | defect place what =>
      obtain rfl := List.mem_singleton.mp hd
      exact ⟨what, rfl, Defect.Plain.ne_headerAbsent⟩
    | block place v =>
      obtain rfl := List.mem_singleton.mp hd
      exact ⟨.tooDeep limit, rfl, nofun⟩
  | succ room ih =>
    cases f with
    | defect place what =>
      obtain rfl := List.mem_singleton.mp hd
      exact ⟨what, rfl, Defect.Plain.ne_headerAbsent⟩
    | block place v =>
      obtain ⟨g, hg, hd⟩ := List.mem_flatMap.mp hd
      obtain ⟨what, hwhat, hne⟩ := ih hd
      exact ⟨what, hwhat, fun _ => hne (Block.plain_survey v g hg)⟩

/-- **`Diagnostic.Before`** -- two diagnostics tell of defects that are found one before the
other. -/
def Diagnostic.Before (d e : Diagnostic) : Prop :=
  ∃ what what' : Defect, d = what.diagnostic d.path ∧ e = what'.diagnostic e.path
    ∧ (Finding.defect d.path what).Before (.defect e.path what')

/-- Where two diagnostics lie: their paths part, or they are at one place, or it is a widget. -/
theorem Diagnostic.Before.place_cases {d e : Diagnostic} (h : d.Before e) :
    Path.Apart d.path e.path
      ∨ (∃ place, d = Defect.headerAbsent.diagnostic place
        ∧ e = (Defect.shape .filledArray).diagnostic place)
      ∨ (∃ place value, d = (Defect.unsupported value).diagnostic place
        ∧ e = (Defect.markNotAllowed Run.quotedMarks).diagnostic place)
      ∨ ∃ place, ∃ key ∈ ["widgetId", "widgetType"],
        d = Defect.absent.diagnostic (place ++ [.field key])
          ∧ e = Defect.dataAbsent.diagnostic place := by
  obtain ⟨what, what', hd, he, hbefore⟩ := h
  have told {d : Diagnostic} {what what' : Defect} {place : Path} (hd : d = what.diagnostic d.path)
      (heq : Finding.defect d.path what = .defect place what') : d = what'.diagnostic place := by
    obtain ⟨hpath, rfl⟩ := Finding.defect.inj heq
    exact hpath ▸ hd
  rcases hbefore.place_cases with happart | ⟨place, hf, hg⟩ | ⟨place, value, hf, hg⟩
    | ⟨place, key, hkey, hf, hg⟩
  · exact .inl happart
  · exact .inr (.inl ⟨place, told hd hf, told he hg⟩)
  · exact .inr (.inr (.inl ⟨place, value, told hd hf, told he hg⟩))
  · exact .inr (.inr (.inr ⟨place, key, hkey, told hd hf, told he hg⟩))

/-- What is told of two findings is in the order of the findings. -/
theorem Finding.Before.diagnose {limit room : Nat} {base : Path} {f g : Finding}
    (h : f.Before g) {d e : Diagnostic} (hd : d ∈ f.diagnose limit room base)
    (he : e ∈ g.diagnose limit room base) : d.Before e := by
  have of_defects {p q : Path} {what what' : Defect}
      (hbefore : Finding.Before (.defect p what) (.defect q what'))
      (hd : d ∈ Finding.diagnose limit room base (.defect p what))
      (he : e ∈ Finding.diagnose limit room base (.defect q what')) : d.Before e := by
    rw [diagnose_defect, List.mem_singleton] at hd he
    rw [hd, he]
    exact ⟨what, what', rfl, rfl, Finding.local_before.under base hbefore⟩
  cases h with
  | apart hprecedes =>
    obtain ⟨what, hwhat, -⟩ := Finding.exists_defect_of_mem_diagnose hd
    obtain ⟨what', hwhat', -⟩ := Finding.exists_defect_of_mem_diagnose he
    refine ⟨what, what', hwhat, hwhat', .apart ?_⟩
    exact (hprecedes.under base).mono (prefix_of_mem_diagnose hd) (prefix_of_mem_diagnose he)
  | header => exact of_defects .header hd he
  | widget hkey => exact of_defects (.widget hkey) hd he
  | again => exact of_defects .again hd he
  | late hlt hwhat => exact of_defects (.late hlt hwhat) hd he

theorem Survey.pairwise_diagnose {limit room : Nat} {base : Path} {s : Survey}
    (hs : s.Pairwise Finding.Before)
    (h : ∀ f ∈ s, (f.diagnose limit room base).Pairwise Diagnostic.Before) :
    (s.diagnose limit room base).Pairwise Diagnostic.Before := by
  refine List.pairwise_flatMap.mpr ⟨h, hs.imp ?_⟩
  intro f g hbefore d hd e he
  exact hbefore.diagnose hd he

/-- By induction on the room: what a block holds is told in the order in which a look at the block
finds it. -/
theorem Finding.pairwise_diagnose (limit room : Nat) (base : Path) (f : Finding) :
    (f.diagnose limit room base).Pairwise Diagnostic.Before := by
  induction room generalizing base f with
  | zero => cases f <;> exact List.pairwise_singleton _ _
  | succ room ih =>
    cases f with
    | defect place what => exact List.pairwise_singleton _ _
    | block place v =>
      exact Survey.pairwise_diagnose (Block.pairwise_before v) fun g _ => ih (base ++ place) g

/-- **`pairwise_before`** -- the diagnostics of a chapter are in order. -/
theorem Chapter.pairwise_before (limit : Nat) (v : Value) :
    (diagnostics limit v).Pairwise Diagnostic.Before :=
  Survey.pairwise_diagnose (before_survey v) fun f _ => f.pairwise_diagnose limit limit []

/-! ## Header and blocks -/

/-- **`Chapter.Split`** -- some diagnostics are those of a header and then those of blocks. If what
is told of the header is a matter of shape, nothing is told of blocks. -/
structure Chapter.Split (all header blocks : List Diagnostic) : Prop where
  eq : all = header ++ blocks
  under_chapter : ∀ d ∈ header, [.field "chapter"] <+: d.path
  under_blocks : ∀ d ∈ blocks, [.field "blocks"] <+: d.path
  eq_nil : ∀ d ∈ header, d.kind = .wrongShape → blocks = []

/-- No path leads both to the header and to the blocks. -/
theorem Chapter.not_chapter_of_blocks {p : Path} (hblocks : [.field "blocks"] <+: p) :
    ¬[.field "chapter"] <+: p := by
  intro hchapter
  have heq : Step.field "blocks" = .field "chapter" :=
    @Path.eq_of_append_under [] _ _ _ hblocks hchapter
  exact absurd heq (by decide)

/-- **`exists_split`** -- what is told of a chapter is told of its header and then of its blocks. -/
theorem Chapter.exists_split (limit : Nat) (v : Value) :
    ∃ header blocks, Split (diagnostics limit v) header blocks := by
  have hunder (steps : Path) (s : Survey) :
      ∀ d ∈ (Survey.under steps s).diagnose limit limit [], steps <+: d.path := by
    intro d hd
    rw [Survey.diagnose_under] at hd
    obtain ⟨f, -, hd⟩ := List.mem_flatMap.mp hd
    exact (List.prefix_append _ _).trans (Finding.prefix_of_mem_diagnose hd)
  have of_header (s : Survey)
      (hs : diagnostics limit v = (Survey.under [.field "chapter"] s).diagnose limit limit []) :
      ∃ header blocks, Split (diagnostics limit v) header blocks := by
    refine ⟨_, [], (List.append_nil _).symm, ?_, nofun, fun _ _ _ => rfl⟩
    rw [hs]
    exact hunder _ s
  cases v with
  | object chapter =>
    rcases blocksSurvey_cases chapter with ⟨items, -, -, heq⟩ | ⟨-, heq⟩
    · refine ⟨_, _, ?_, hunder [.field "chapter"] (headerSurvey chapter),
        hunder [.field "blocks"] (Survey.each Survey.block items), ?_⟩
      · rw [diagnostics, survey, heq, Survey.diagnose_append]
      · -- A header field that is missed is no matter of shape.
        intro d hd hkind
        rw [Survey.diagnose_under] at hd
        obtain ⟨f, hf, hd⟩ := List.mem_flatMap.mp hd
        obtain ⟨key, -, rfl⟩ := mem_headerSurvey hf
        rw [Finding.diagnose_defect, List.mem_singleton] at hd
        rw [hd] at hkind
        cases hkind
    · refine of_header
        (headerSurvey chapter ++ [.defect [.field "blocks"] (.shape .filledArray)]) ?_
      rw [diagnostics, survey, heq, Survey.under, Survey.under, List.map_append]
      rfl
  | _ => exact of_header (Survey.here (.shape .object)) rfl

end ChapterCheck
