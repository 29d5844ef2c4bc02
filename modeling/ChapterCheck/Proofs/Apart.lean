/-
# ChapterCheck.Proofs.Apart -- the blocks of a survey, and how far apart they stand

No finding of a survey lies at or under a block of the same survey, other than that block itself
(`Block.clear_survey`, `Chapter.clear_survey`). So the places of the blocks on a level are apart
(`Chapter.apart_blocksAt`), and what is said at and under a block is said of that block alone.

A relation between findings is `Local` if it does not ask where the node stands, and if findings in
different elements of an array are always in it; then it holds throughout a survey as soon as it
holds in the parts.
-/
import ChapterCheck.Proofs.Held

namespace ChapterCheck

open Json Grammar

/-! ## Paths apart -/

namespace Path

/-- Paths are **`Apart`** -- neither goes on from where the other ends. -/
def Apart (p q : Path) : Prop :=
  ¬p <+: q ∧ ¬q <+: p

theorem apart_append_iff {base p q : Path} : Apart (base ++ p) (base ++ q) ↔ Apart p q := by
  simp only [Apart, List.prefix_append_right_inj]

theorem apart_of_ne {a b : Step} (h : a ≠ b) (p q : Path) : Apart (a :: p) (b :: q) := by
  simp [Apart, List.cons_prefix_cons, h, Ne.symm h]

/-- Paths that are apart stay so, however far they go on. -/
theorem Apart.extend {p q p' q' : Path} (h : Apart p q) (hp : p <+: p') (hq : q <+: q') :
    Apart p' q' := by
  -- Two beginnings of one path are comparable, so one would go on from the other.
  constructor
  · intro hpq
    rcases List.prefix_or_prefix_of_prefix (hp.trans hpq) hq with hle | hle
    · exact h.1 hle
    · exact h.2 hle
  · intro hqp
    rcases List.prefix_or_prefix_of_prefix (hq.trans hqp) hp with hle | hle
    · exact h.2 hle
    · exact h.1 hle

end Path

/-! ## Relations between the findings of a survey -/

namespace Survey

/-- A relation between findings that is **`Local`**. -/
structure Local (R : Finding → Finding → Prop) : Prop where
  /-- It does not ask where the node stands. -/
  under : ∀ {f g : Finding} (base : Path), R f g → R (f.under base) (g.under base)
  /-- It holds between an element and those behind it. -/
  elements : ∀ {f g : Finding} {i j : Nat}, i < j → R (f.under [.index i]) (g.under [.index j])

variable {R : Finding → Finding → Prop} {owner : Members} {key : String} {check : Value → Survey}

theorem Local.pairwise_under (hR : Local R) (base : Path) {s : Survey} (h : s.Pairwise R) :
    (Survey.under base s).Pairwise R :=
  List.pairwise_map.mpr (h.imp (hR.under base))

/-- The elements of an array are counted upward. -/
theorem pairwise_zipIdx (items : List Value) : items.zipIdx.Pairwise fun a b => a.2 < b.2 := by
  rw [← List.pairwise_map (f := Prod.snd), List.zipIdx_map_snd]
  exact List.pairwise_lt_range'

theorem Local.pairwise_each (hR : Local R) {items : List Value}
    (h : ∀ v ∈ items, (check v).Pairwise R) : (each check items).Pairwise R := by
  rw [each, List.pairwise_flatMap]
  constructor
  · rintro ⟨v, place⟩ hv
    exact hR.pairwise_under _ (h v (List.fst_mem_of_mem_zipIdx hv))
  · -- Across two elements only their places matter.
    refine (pairwise_zipIdx items).imp ?_
    intro a b hlt f hf g hg
    obtain ⟨f, -, rfl⟩ := mem_under.mp hf
    obtain ⟨g, -, rfl⟩ := mem_under.mp hg
    exact hR.elements hlt

theorem Local.pairwise_filled (hR : Local R) (h : ∀ v, (check v).Pairwise R) :
    (filled owner key check).Pairwise R := by
  rcases filled_cases owner key check with ⟨items, -, -, heq⟩ | ⟨-, heq⟩
  · rw [heq]
    exact hR.pairwise_under _ (hR.pairwise_each fun v _ => h v)
  · rw [heq]
    exact List.pairwise_singleton R _

theorem pairwise_object {v : Value} {check : Members → Survey}
    (h : ∀ members, (check members).Pairwise R) : (object v check).Pairwise R := by
  rcases object_cases v check with ⟨members, -, heq⟩ | ⟨-, heq⟩
  · rw [heq]
    exact h members
  · rw [heq]
    exact List.pairwise_singleton R _

end Survey

/-! ## Clear findings -/

/-- Findings are **`Clear`** of each other -- neither lies at or under a block that the other is. -/
def Finding.Clear : Finding → Finding → Prop
  | .block p _, .block q _ => Path.Apart p q
  | .block p _, .defect q _ => ¬p <+: q
  | .defect p _, .block q _ => ¬q <+: p
  | .defect _ _, .defect _ _ => True

theorem Finding.clear_of_apart {f g : Finding} (h : Path.Apart f.place g.place) : f.Clear g := by
  cases f <;> cases g
  · trivial
  · exact h.2
  · exact h.1
  · exact h

theorem Finding.local_clear : Survey.Local Finding.Clear where
  under := by
    intro f g base h
    rw [Finding.Clear.eq_def] at h ⊢
    cases f <;> cases g <;> simp_all [Finding.under, Path.apart_append_iff]
  elements := by
    intro f g i j hlt
    refine clear_of_apart ?_
    rw [place_under, place_under]
    exact Path.apart_of_ne (fun h => Nat.ne_of_lt hlt (Step.index.inj h)) _ _

/-! ## The surveys of blocks and chapters -/

namespace Survey

variable {owner : Members} {key : String} {check : Value → Survey}

/-- Where all is defects, there is nothing to lie under. -/
theorem clear_of_defects {s : Survey} (h : All Finding.IsDefect s) : s.Pairwise Finding.Clear := by
  apply List.pairwise_of_forall_mem_list
  intro f hf g hg
  have hdefect := h f hf
  have hdefect' := h g hg
  cases f <;> cases g <;> trivial

/-- Where no finding is in the way of another, the blocks are apart. -/
theorem apart_held {s : Survey} (h : s.Pairwise Finding.Clear) :
    (held s).Pairwise fun a b => Path.Apart a.1 b.1 := by
  refine h.filterMap Finding.block? ?_
  intro f g hclear a ha b hb
  cases f <;> cases g <;> cases ha <;> cases hb
  exact hclear

theorem clear_block (v : Value) : (Survey.block v).Pairwise Finding.Clear :=
  List.pairwise_singleton _ _

theorem clear_filled (h : ∀ v, (check v).Pairwise Finding.Clear) :
    (filled owner key check).Pairwise Finding.Clear :=
  Finding.local_clear.pairwise_filled h

/-- All that is found in a field lies at the field or under it. -/
theorem prefix_of_mem_filled {f : Finding} (hf : f ∈ filled owner key check) :
    [.field key] <+: f.place := by
  rcases filled_cases owner key check with ⟨items, -, -, heq⟩ | ⟨-, heq⟩
  · rw [heq] at hf
    obtain ⟨g, -, rfl⟩ := mem_under.mp hf
    rw [Finding.place_under]
    exact List.prefix_append _ _
  · rw [heq] at hf
    obtain rfl := mem_atField.mp hf
    exact List.prefix_rfl

/-- A word and an array in different fields do not get in each other's way. -/
theorem clear_word_filled {α : Type} [Tagged α] {wordKey : String} (hne : wordKey ≠ key)
    (h : ∀ v, (check v).Pairwise Finding.Clear) :
    (word α owner wordKey ++ filled owner key check).Pairwise Finding.Clear := by
  have hword : All Finding.IsDefect (word α owner wordKey) :=
    all_word Finding.stable_isDefect α owner wordKey
  refine List.pairwise_append.mpr ⟨clear_of_defects hword, clear_filled h, ?_⟩
  intro f hf g hg
  obtain ⟨-, rfl⟩ := mem_word.mp hf
  apply Finding.clear_of_apart
  have happart : Path.Apart [.field wordKey] [.field key] :=
    Path.apart_of_ne (fun h => hne (Step.field.inj h)) [] []
  exact happart.extend List.prefix_rfl (prefix_of_mem_filled hg)

end Survey

namespace Block

theorem clear_listItem (v : Value) : (listItem v).Pairwise Finding.Clear := by
  unfold listItem
  split
  · exact Finding.local_clear.pairwise_each fun v _ => Survey.clear_block v
  · exact List.pairwise_singleton _ _

theorem clear_tableRow (v : Value) : (tableRow v).Pairwise Finding.Clear := by
  refine Survey.clear_filled fun cell => ?_
  exact Survey.pairwise_object fun _ => Survey.clear_filled Survey.clear_block

/-- **`clear_survey`** -- no finding at a block lies under a block that it holds. -/
theorem clear_survey (v : Value) : (survey v).Pairwise Finding.Clear := by
  refine Survey.pairwise_object fun block => ?_
  cases kind? block with
  | none => exact List.pairwise_singleton _ _
  | some kind =>
    show (contract block kind).Pairwise Finding.Clear
    cases kind with
    | blockquote => exact Survey.clear_filled Survey.clear_block
    | callout => exact Survey.clear_word_filled (by decide) Survey.clear_block
    | list => exact Survey.clear_word_filled (by decide) clear_listItem
    | table => exact Survey.clear_filled clear_tableRow
    | _ =>
      apply Survey.clear_of_defects
      exact isDefect_contract id block

/-- The blocks that a block holds are apart. -/
theorem apart_nested (v : Value) : (nested v).Pairwise fun a b => Path.Apart a.1 b.1 := by
  rw [← held_survey]
  exact Survey.apart_held (clear_survey v)

end Block

namespace Chapter

/-- **`clear_survey`** -- no finding at a chapter lies under one of its blocks. -/
theorem clear_survey (v : Value) : (survey v).Pairwise Finding.Clear := by
  cases v with
  | object chapter =>
    have hheader : Survey.All Finding.IsDefect
        (Survey.under [.field "chapter"] (headerSurvey chapter)) :=
      Survey.all_under Finding.stable_isDefect (isDefect_headerSurvey chapter) _
    show (Survey.under [.field "chapter"] (headerSurvey chapter)
      ++ blocksSurvey chapter).Pairwise Finding.Clear
    rcases blocksSurvey_cases chapter with ⟨items, -, -, heq⟩ | ⟨-, heq⟩
    · rw [heq]
      refine List.pairwise_append.mpr ⟨Survey.clear_of_defects hheader, ?_, ?_⟩
      · apply Finding.local_clear.pairwise_under
        exact Finding.local_clear.pairwise_each fun v _ => Survey.clear_block v
      · -- The header is told at the name of the chapter, the blocks at their field.
        intro f hf g hg
        obtain ⟨f, -, rfl⟩ := Survey.mem_under.mp hf
        obtain ⟨g, -, rfl⟩ := Survey.mem_under.mp hg
        apply Finding.clear_of_apart
        rw [Finding.place_under, Finding.place_under]
        exact Path.apart_of_ne (by decide) _ _
    · -- Without blocks to look at, all that is found are defects.
      apply Survey.clear_of_defects
      rw [heq]
      exact Survey.all_append.mpr ⟨hheader, List.forall_mem_singleton.mpr trivial⟩
  | _ => exact List.pairwise_singleton _ _

/-- **`apart_blocksAt`** -- the blocks on a level are apart. -/
theorem apart_blocksAt (v : Value) (level : Nat) :
    (blocksAt v level).Pairwise fun a b => Path.Apart a.1 b.1 := by
  induction level with
  | zero => exact List.Pairwise.nil
  | succ level ih =>
    rcases Nat.eq_zero_or_pos level with rfl | hlevel
    · rw [← held_survey]
      exact Survey.apart_held (clear_survey v)
    · rw [blocksAt_succ v (Nat.ne_of_gt hlevel), List.pairwise_flatMap]
      constructor
      · -- Two blocks under one are apart because that one holds them apart.
        intro b _
        refine List.pairwise_map.mpr ((Block.apart_nested b.2).imp ?_)
        intro x y happart
        exact Path.apart_append_iff.mpr happart
      · -- Blocks under two go on from places that are apart already.
        refine ih.imp ?_
        intro a b happart x hx y hy
        obtain ⟨x, -, rfl⟩ := List.mem_map.mp hx
        obtain ⟨y, -, rfl⟩ := List.mem_map.mp hy
        exact happart.extend (List.prefix_append _ _) (List.prefix_append _ _)

end Chapter

end ChapterCheck
