/-
# ChapterCheck.Proofs.Findings -- what the combinators of a survey find

A survey is put together from a few combinators. Each has one lemma here that says exactly which
findings it makes, so that no later proof opens a combinator: what is found under a node, in the
elements of an array, behind a field that has to be filled, behind a key or a word that has to be
there.

A word of the vocabulary is read exactly when the value is the string of that word
(`Tagged.ofValue?_eq_some_iff`).
-/
import ChapterCheck.Chapter

namespace ChapterCheck

/-! ## Values and members -/

namespace Json

theorem Value.asString?_eq_some_iff {v : Value} {s : String} :
    v.asString? = some s ↔ v = .string s := by
  cases v <;> simp [Value.asString?]

theorem Members.has_iff {members : Members} {key : String} :
    members.has key = true ↔ ∃ v, members.get? key = some v :=
  Option.isSome_iff_exists

theorem Members.has_eq_false_iff {members : Members} {key : String} :
    members.has key = false ↔ members.get? key = none :=
  Option.isSome_eq_false_iff.trans Option.isNone_iff_eq_none

/-- A **`Filled`** field -- it holds an array with at least one element, and all are as `p` says. -/
def Members.Filled (members : Members) (key : String) (p : Value → Prop) : Prop :=
  ∃ items, members.get? key = some (.array items) ∧ items ≠ [] ∧ ∀ v ∈ items, p v

/-- A field that is **`Unfilled`** holds no array, or one without elements. -/
def Members.Unfilled (members : Members) (key : String) : Prop :=
  ∀ items, members.get? key = some (.array items) → items = []

end Json

open Json

/-! ## Words -/

/-- A value names a member of the vocabulary when it is the string of its word. -/
theorem Tagged.ofValue?_eq_some_iff {α : Type} [Tagged α] {v : Option Value} {a : α} :
    Tagged.ofValue? α v = some a ↔ v = some (.string (Tagged.tag a)) := by
  simp only [Tagged.ofValue?, Option.bind_eq_some_iff, Value.asString?_eq_some_iff,
    Tagged.ofTag?_eq_some_iff]
  constructor
  · rintro ⟨word, ⟨_, rfl, rfl⟩, rfl⟩
    rfl
  · rintro rfl
    exact ⟨_, ⟨_, rfl, rfl⟩, rfl⟩

namespace Survey

variable {f : Finding} {base : Path} {key : String} {owner : Members} {check : Value → Survey}

/-! ## Findings of the combinators -/

theorem mem_under {s : Survey} : f ∈ under base s ↔ ∃ g ∈ s, g.under base = f :=
  List.mem_map

theorem mem_here {what : Defect} : f ∈ here what ↔ f = .defect [] what :=
  List.mem_singleton

theorem mem_atField {what : Defect} : f ∈ atField key what ↔ f = .defect [.field key] what :=
  List.mem_singleton

theorem mem_block {v : Value} : f ∈ Survey.block v ↔ f = .block [] v :=
  List.mem_singleton

theorem mem_require :
    f ∈ require owner key ↔ owner.get? key = none ∧ f = .defect [.field key] .absent := by
  rw [← Members.has_eq_false_iff, require]
  split <;> simp_all [mem_atField]

theorem mem_word {α : Type} [Tagged α] :
    f ∈ word α owner key ↔
      (∀ a : α, owner.get? key ≠ some (.string (Tagged.tag a)))
        ∧ f = .defect [.field key] (.invalid (owner.get? key)) := by
  have none_iff : Tagged.ofValue? α (owner.get? key) = none ↔
      ∀ a : α, owner.get? key ≠ some (.string (Tagged.tag a)) := by
    simp only [Option.eq_none_iff_forall_ne_some, ne_eq, Tagged.ofValue?_eq_some_iff]
  rw [← none_iff, word]
  split
  · rename_i h
    simp [h]
  · rename_i h
    simp [h, mem_atField]

theorem mem_each {items : List Value} :
    f ∈ each check items ↔
      ∃ place v, items[place]? = some v ∧ ∃ g ∈ check v, g.under [.index place] = f := by
  simp only [each, List.mem_flatMap, Prod.exists, List.mk_mem_zipIdx_iff_getElem?, mem_under]
  rw [exists_comm]

theorem mem_under_each {items : List Value} :
    f ∈ under [.field key] (each check items) ↔
      ∃ place v, items[place]? = some v
        ∧ ∃ g ∈ check v, g.under [.field key, .index place] = f := by
  simp only [mem_under, mem_each]
  constructor
  · rintro ⟨_, ⟨place, v, hv, g, hg, rfl⟩, rfl⟩
    exact ⟨place, v, hv, g, hg, (Finding.under_under [.field key] [.index place] g).symm⟩
  · rintro ⟨place, v, hv, g, hg, rfl⟩
    exact ⟨_, ⟨place, v, hv, g, hg, rfl⟩, Finding.under_under [.field key] [.index place] g⟩

/-- What has to be filled is either filled, and its elements are looked at, or the field itself is
the defect. -/
theorem filled_cases (owner : Members) (key : String) (check : Value → Survey) :
    (∃ items, owner.get? key = some (.array items) ∧ items ≠ []
      ∧ filled owner key check = under [.field key] (each check items))
    ∨ owner.Unfilled key ∧ filled owner key check = atField key (.shape .filledArray) := by
  unfold filled
  split
  · rename_i first rest h
    exact .inl ⟨first :: rest, h, List.cons_ne_nil _ _, rfl⟩
  · rename_i h
    refine .inr ⟨?_, rfl⟩
    intro items hitems
    cases items with
    | nil => rfl
    | cons first rest => exact absurd hitems (h first rest)

/-- What has to be an object is one, and its members are looked at, or it is itself the defect. -/
theorem object_cases (v : Value) (check : Members → Survey) :
    (∃ members, v = .object members ∧ object v check = check members)
    ∨ (∀ members, v ≠ .object members) ∧ object v check = here (.shape .object) := by
  cases v <;> simp [object]

end Survey

open Survey in
/-- The blocks of a chapter are looked at if there are some; if not, that is told of the chapter. -/
theorem Chapter.blocksSurvey_cases (chapter : Members) :
    (∃ items, chapter.get? "blocks" = some (.array items) ∧ items ≠ []
      ∧ blocksSurvey chapter = under [.field "blocks"] (each Survey.block items))
    ∨ chapter.Unfilled "blocks"
      ∧ blocksSurvey chapter
        = [.defect [.field "chapter", .field "blocks"] (.shape .filledArray)] := by
  unfold blocksSurvey
  split
  · rename_i first rest h
    exact .inl ⟨first :: rest, h, List.cons_ne_nil _ _, rfl⟩
  · rename_i h
    refine .inr ⟨?_, rfl⟩
    intro items hitems
    cases items with
    | nil => rfl
    | cons first rest => exact absurd hitems (h first rest)

end ChapterCheck
