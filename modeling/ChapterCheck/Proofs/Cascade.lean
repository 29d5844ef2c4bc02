/-
# ChapterCheck.Proofs.Cascade -- what is wrong is told once

Where a node is not what it has to be, nothing is told of what it holds. The main statement is
`Validator.errors_uncascaded`: of two diagnostics on one path, the upper one says that a widget has
no data and the lower one that the same widget lacks a key; what is told of a block of an unknown
type is that and nothing else; and if the chapter is no object or has no blocks, nothing is told of
blocks.

That two diagnostics are hardly ever on one path is the order of the findings once more
(`Diagnostic.Before.place_cases`): if their places do not part, they are at one and the same place,
or it is the widget.
-/
import Mathlib.Data.List.Pairwise
import ChapterCheck.Proofs.Founded
import ChapterCheck.Proofs.Sequence

namespace ChapterCheck

open Json Grammar

/-! ## Two diagnostics on one path -/

/-- Any two diagnostics of a chapter are told one before the other. -/
theorem Chapter.before_or_before {limit : Nat} {v : Value} {d e : Diagnostic}
    (hd : d ∈ diagnostics limit v) (he : e ∈ diagnostics limit v) (hne : d ≠ e) :
    d.Before e ∨ e.Before d := by
  have hpairwise : (diagnostics limit v).Pairwise fun d e => d.Before e ∨ e.Before d :=
    (pairwise_before limit v).imp Or.inl
  have hsymm : Std.Symm fun d e : Diagnostic => d.Before e ∨ e.Before d := ⟨fun _ _ => Or.symm⟩
  exact hpairwise.forall hd he hne

/-! ## Places of blocks -/

/-- A place ends with an element, unless it is that of the chapter or of the image of a figure. -/
theorem Stands.ends_with_index {v w : Value} {role : Role} {place : Path}
    (h : Stands v role place w) (hchapter : role ≠ .chapter) (himage : role ≠ .image) :
    ∃ init i, place = init ++ [.index i] := by
  cases h with
  | chapter => exact absurd rfl hchapter
  | @top i => exact ⟨[.field "blocks"], i, rfl⟩
  | @step _ _ outer _ _ _ _ hleads =>
    have behind_field (key : String) (i : Nat) :
        ∃ init j, outer ++ [.field key, .index i] = init ++ [.index j] := by
      refine ⟨outer ++ [.field key], i, ?_⟩
      rw [List.append_assoc]
      rfl
    cases hleads with
    | listItem => exact ⟨outer, _, rfl⟩
    | figure => exact absurd rfl himage
    | _ => exact behind_field _ _

/-- A block is no element of `marks`. -/
theorem Stands.block_ne_marks {v b : Value} {level i : Nat} {place init : Path}
    (h : Stands v (.block level) place b) : place ≠ init ++ [.field "marks", .index i] := by
  have other {outer : Path} {step : Step} {j : Nat} (hstep : step ≠ .field "marks") :
      outer ++ [step, .index j] ≠ init ++ [.field "marks", .index i] := by
    intro heq
    have hlast := (List.append_inj' heq rfl).2
    exact hstep (List.cons.inj hlast).1
  cases h with
  | top => exact @other [] _ _ (by decide)
  | @step _ _ outer _ _ _ hstands hleads =>
    cases hleads with
    | blockquote => exact other (by decide)
    | callout => exact other (by decide)
    | cell => exact other (by decide)
    | listItem =>
      -- The item itself is an element, so two elements come one behind the other.
      obtain ⟨outer, j, rfl⟩ := hstands.ends_with_index nofun nofun
      rw [List.append_assoc]
      exact other nofun

/-- What is missing under one of the two keys is missing in a widget. -/
theorem Founded.exists_widget {limit : Nat} {v : Value} {place : Path} {key : String}
    (h : Founded limit v .missingField (place ++ [.field key]))
    (hkey : key ∈ ["widgetId", "widgetType"]) :
    ∃ level block, Stands v (.block level) place (.object block) ∧ Named block "widget" := by
  have not_element {role : Role} {place' : Path} {w : Value} (hstands : Stands v role place' w)
      (hchapter : role ≠ .chapter) (himage : role ≠ .image)
      (hplace : place ++ [.field key] = place') :
      ∃ level block, Stands v (.block level) place (.object block) ∧ Named block "widget" := by
    obtain ⟨init, i, rfl⟩ := hstands.ends_with_index hchapter himage
    have hlast := (List.append_inj' hplace rfl).2
    simp at hlast
  generalize hpath : place ++ [.field key] = path at h
  cases h with
  | @absent role _ owner key' hstands hrequires =>
    obtain ⟨rfl, hlast⟩ := List.append_inj' hpath rfl
    obtain rfl : key = key' := by simpa using hlast
    have hchapter : ∀ key ∈ ["widgetId", "widgetType"],
        key ∉ ["chapterId", "title", "anchor", "order", "blocks"] := by decide
    have hheading : ∀ key ∈ ["widgetId", "widgetType"], key ∉ ["level", "text", "anchor"] := by
      decide
    cases hrequires with
    | widget hnamed => exact ⟨_, _, hstands, hnamed⟩
    | chapter hother => exact absurd hother (hchapter key hkey)
    | heading _ hother => exact absurd hother (hheading key hkey)
    | _ => exact absurd hkey (by decide)
  | nullTitle =>
    obtain ⟨-, hlast⟩ := List.append_inj' hpath rfl
    obtain rfl : key = "title" := by simpa using hlast
    exact absurd hkey (by decide)
  | keyFigure hstands => exact not_element hstands nofun nofun hpath
  | widget hstands => exact not_element hstands nofun nofun hpath

/-! ## No cascade -/

/-- What the walk tells of a block of an unknown type. -/
theorem Block.diagnostics_of_unknown {limit room : Nat} {place : Path} {block : Members}
    (h : ¬Word blockWords block "type") :
    diagnostics limit (room + 1) (place, .object block)
      = [(Defect.unsupported (block.get? "type")).diagnostic (place ++ [.field "type"])] := by
  have hkind : kind? block = none := by
    cases hkind : kind? block with
    | none => rfl
    | some kind => exact absurd ((word_tags_iff (α := BlockKind)).mpr ⟨kind, hkind⟩) h
  have hsurvey : survey (.object block)
      = [.defect [.field "type"] (.unsupported (block.get? "type"))] := by
    rw [survey, Survey.object, hkind]
    rfl
  rw [diagnostics, Finding.diagnose_block_succ, hsurvey, Survey.diagnose, List.flatMap_singleton,
    Finding.diagnose_defect]
  rfl

/-- A block of an unknown type stands within the limit, and nothing else is told of it. -/
theorem Chapter.filter_eq_of_unknown {limit level : Nat} {v b : Value} {place : Path}
    {d : Diagnostic} (hd : d ∈ diagnostics limit v) (hkind : d.kind = .unknownType)
    (hpath : d.path = place ++ [.field "type"]) (hstands : Stands v (.block level) place b) :
    (diagnostics limit v).filter (place <+: ·.path) = [d] := by
  have hunder : place <+: d.path := hpath ▸ List.prefix_append _ _
  have hlevel : level ≤ limit := by
    apply Nat.le_of_not_lt
    intro hlt
    rw [eq_tooDeep_of_under hstands hlt hd hunder] at hkind
    cases hkind
  have hword : ∃ block, b = .object block ∧ ¬Word blockWords block "type" := by
    have hfounded := founded_of_mem_diagnostics d hd
    rw [hkind, hpath] at hfounded
    generalize htype : place ++ [.field "type"] = path at hfounded
    cases hfounded with
    | @blockType _ _ block hblock hword =>
      obtain ⟨rfl, -⟩ := List.append_inj' htype rfl
      have hsame := hstands.node?_eq.symm.trans hblock.node?_eq
      exact ⟨block, Option.some.inj hsame, hword⟩
    | markType hmark =>
      obtain ⟨rfl, -⟩ := List.append_inj' htype rfl
      cases hmark with
      | step _ hleads =>
        cases hleads with
        | run => exact absurd rfl hstands.block_ne_marks
  obtain ⟨block, rfl, hword⟩ := hword
  obtain ⟨room, rfl⟩ := Nat.exists_eq_add_of_le hlevel
  have hroom : room + 1 + level = level + room + 1 := by omega
  have hisolated := isolated_block (mem_blocksAt_iff.mpr hstands) hroom
  rw [Block.diagnostics_of_unknown hword] at hisolated
  have hmem : d ∈ (diagnostics (level + room) v).filter (place <+: ·.path) :=
    List.mem_filter.mpr ⟨hd, decide_eq_true hunder⟩
  rw [hisolated.filter_eq] at hmem ⊢
  rw [List.mem_singleton.mp hmem]

/-- **`Uncascaded`** -- the diagnostics of a chapter are told without a cascade. -/
structure Chapter.Uncascaded (v : Value) (errors : List Diagnostic) : Prop where
  /-- If one path goes on from another, there it is a widget without data, and here one of its keys
  is missing. -/
  widget : ∀ d ∈ errors, ∀ e ∈ errors, d.path <+: e.path → d.path ≠ e.path →
    ∃ level block, Stands v (.block level) d.path (.object block) ∧ Named block "widget"
      ∧ d = ⟨.missingField, d.path, d.path.render ++ " requires data or dataRef"⟩
      ∧ ∃ key ∈ ["widgetId", "widgetType"],
        e = ⟨.missingField, d.path ++ [.field key], e.path.render ++ " is missing"⟩
  /-- Of a block of an unknown type nothing else is told. -/
  unknown : ∀ d ∈ errors, ∀ place level b, d.kind = .unknownType →
    d.path = place ++ [.field "type"] → Stands v (.block level) place b →
    errors.filter (place <+: ·.path) = [d]
  /-- Of a chapter that is no object or has no blocks, nothing is told of blocks. -/
  shape : ∀ d ∈ errors, d.kind = .wrongShape →
    d.path = [.field "chapter"] ∨ d.path = [.field "chapter", .field "blocks"] →
    ∀ e ∈ errors, ¬[.field "blocks"] <+: e.path

/-- Two diagnostics of one path are those of a widget. -/
theorem Chapter.widget_of_under {limit : Nat} {v : Value} {d e : Diagnostic}
    (hd : d ∈ diagnostics limit v) (he : e ∈ diagnostics limit v) (hunder : d.path <+: e.path)
    (hne : d.path ≠ e.path) :
    ∃ level block, Stands v (.block level) d.path (.object block) ∧ Named block "widget"
      ∧ d = ⟨.missingField, d.path, d.path.render ++ " requires data or dataRef"⟩
      ∧ ∃ key ∈ ["widgetId", "widgetType"],
        e = ⟨.missingField, d.path ++ [.field key], e.path.render ++ " is missing"⟩ := by
  rcases before_or_before hd he (fun heq => hne (congrArg Diagnostic.path heq)) with
    hbefore | hbefore
  · rcases hbefore.place_cases with happart | ⟨place, rfl, rfl⟩ | ⟨place, value, rfl, rfl⟩
      | ⟨place, key, -, rfl, rfl⟩
    · exact absurd hunder happart.1
    · exact absurd rfl hne
    · exact absurd rfl hne
    · -- The key is missed in front of the data, so the longer path comes first.
      have hlength : (place ++ [Step.field key]).length ≤ place.length := hunder.length_le
      rw [List.length_append, List.length_singleton] at hlength
      omega
  · rcases hbefore.place_cases with happart | ⟨place, rfl, rfl⟩ | ⟨place, value, rfl, rfl⟩
      | ⟨place, key, hkey, rfl, rfl⟩
    · exact absurd hunder happart.2
    · exact absurd rfl hne
    · exact absurd rfl hne
    · have hfounded : Founded limit v .missingField (place ++ [.field key]) :=
        founded_of_mem_diagnostics _ he
      obtain ⟨level, block, hstands, hnamed⟩ := hfounded.exists_widget hkey
      have hdata : Defect.dataAbsent.Plain := trivial
      have habsent : Defect.absent.Plain := trivial
      refine ⟨level, block, hstands, hnamed, ?_, key, hkey, ?_⟩
      · rw [Defect.diagnostic, hdata.message_eq]
        rfl
      · rw [Defect.diagnostic, habsent.message_eq]
        rfl

/-- **`errors_uncascaded`** -- the diagnostics of a report are told without a cascade. -/
theorem Validator.errors_uncascaded (validator : Validator) (v : Value) :
    Chapter.Uncascaded v (validator.report v).errors where
  widget _ hd _ he hunder hne := Chapter.widget_of_under hd he hunder hne
  unknown _ hd _ _ _ hkind hpath hstands := Chapter.filter_eq_of_unknown hd hkind hpath hstands
  shape := by
    intro d hd hkind hpath e he hblocks
    obtain ⟨header, blocks, hsplit⟩ := Chapter.exists_split validator.limit v
    have hchapter : [.field "chapter"] <+: d.path := by
      rcases hpath with hpath | hpath
      · exact hpath ▸ List.prefix_rfl
      · exact hpath ▸ List.prefix_append [_] [_]
    have herrors : (validator.report v).errors = header ++ blocks := hsplit.eq
    rw [herrors] at hd he
    rcases List.mem_append.mp hd with hd | hd
    · rw [hsplit.eq_nil d hd hkind, List.append_nil] at he
      exact Chapter.not_chapter_of_blocks hblocks (hsplit.under_chapter e he)
    · exact Chapter.not_chapter_of_blocks (hsplit.under_blocks d hd) hchapter

/-- A chapter with a widget that lacks all, and with a block that is no word. -/
def bareBlocks : Value :=
  .object
    [("blocks", .array
      [.object [("type", .string "widget")], .object [("type", .number (.integer 3))]])]

/-- Behind the header fields that are missed, the widget is told of three times and the block
once. -/
example : ((Chapter.diagnostics 1 bareBlocks).drop 4).map (fun d => (d.kind, d.path.render))
    = [(.missingField, "blocks[0].widgetId"), (.missingField, "blocks[0].widgetType"),
      (.missingField, "blocks[0]"), (.unknownType, "blocks[1].type")] := by
  decide

end ChapterCheck
