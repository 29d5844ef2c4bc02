/-
# ChapterCheck.Proofs.Decoded -- how deep the blocks of a chapter lie that was read

What was read `Fits` into the room that the reader had: no more lists and objects are nested than
that (`readValue_fits`). Every step of a path goes through one of them, so a path into a document is
no longer than the room (`Fits.length_le`). From one block to a block that it holds it takes two
steps or more, whatever kind of block holds it, and to a block of level one it takes two
(`Stands.two_mul_level_le`). So no block of a chapter that was read lies below level 63, and no
limit from there on is ever met (`Validator.errors_of_decoded`).

Quotes inside one another take these two steps each and nothing more, so with a `tower` of them the
bound is reached: the text that is written for it is read.
-/
import ChapterCheck.Files
import ChapterCheck.Proofs.ReadBack
import ChapterCheck.Proofs.Truncation

namespace ChapterCheck

namespace Json

/-! ## Room -/

/-- **`Fits`** -- a document in which at most `room` lists and objects are inside one another. -/
inductive Fits : (room : Nat) → Value → Prop
  | null (room : Nat) : Fits room .null
  | bool (room : Nat) (b : Bool) : Fits room (.bool b)
  | number (room : Nat) (n : Number) : Fits room (.number n)
  | string (room : Nat) (s : String) : Fits room (.string s)
  | array {room : Nat} {items : List Value} : (∀ v ∈ items, Fits room v) →
      Fits (room + 1) (.array items)
  | object {room : Nat} {members : Members} : (∀ m ∈ members, Fits room m.2) →
      Fits (room + 1) (.object members)

theorem Members.mem_of_get? {members : Members} {key : String} {v : Value}
    (h : members.get? key = some v) : ∃ m ∈ members, m.2 = v := by
  induction members with
  | nil => cases h
  | cons m members ih =>
    obtain ⟨k, w⟩ := m
    rw [get?_cons] at h
    split at h
    · cases h
      exact ⟨_, List.mem_cons_self, rfl⟩
    · obtain ⟨m, hm, heq⟩ := ih h
      exact ⟨m, List.mem_cons_of_mem _ hm, heq⟩

/-- One step down takes one of the rooms. -/
theorem Fits.step {room : Nat} {v w : Value} {step : Step} (h : Fits room v)
    (hstep : v.step? step = some w) : ∃ inner, room = inner + 1 ∧ Fits inner w := by
  cases h with
  | array hitems =>
    cases step with
    | field name => cases hstep
    | index place => exact ⟨_, rfl, hitems w (List.mem_of_getElem? hstep)⟩
  | object hmembers =>
    cases step with
    | field name =>
      obtain ⟨m, hm, rfl⟩ := Members.mem_of_get? hstep
      exact ⟨_, rfl, hmembers m hm⟩
    | index place => cases hstep
  | _ => cases step <;> cases hstep

/-- A path into a document is no longer than the room that the document needs. -/
theorem Fits.length_le {room : Nat} {v w : Value} {path : Path} (h : Fits room v)
    (hpath : v.resolve? path = some w) : path.length ≤ room := by
  induction path generalizing room v with
  | nil => exact Nat.zero_le room
  | cons step path ih =>
    obtain ⟨u, hu, hpath⟩ := Option.bind_eq_some_iff.mp hpath
    obtain ⟨inner, rfl, hinner⟩ := h.step hu
    exact Nat.succ_le_succ (ih hinner hpath)

/-! ## What is read fits -/

section Entries

variable {α : Type} {P : α → Prop}

/-- What holds of every element that a reader reads holds of all elements of a list. -/
theorem forall_of_readElements {element : Reader α}
    (helement : ∀ {s t}, element.scan s = .ok t → P t.value) {first : Bool} {seen : List α}
    {s : List UInt8} {t : Taken (List α)} (h : readElements element first seen s = .ok t)
    (hseen : ∀ a ∈ seen, P a) : ∀ a ∈ t.value, P a := by
  fun_induction readElements element first seen s with
  | case1 => cases h
  | case2 =>
    cases h
    exact fun a ha => hseen a (List.mem_reverse.mp ha)
  | case3 => cases h
  | case4 _ _ _ _ _ _ he _ _ ih => exact ih h (List.forall_mem_cons.mpr ⟨helement he, hseen⟩)

/-- What holds of everything that the reader of a member reads holds of all members of an object. -/
theorem forall_of_readMembers {member : List (String × α) → String → Reader α}
    (hmember : ∀ {seen key s t}, (member seen key).scan s = .ok t → P t.value) {first : Bool}
    {seen : List (String × α)} {s : List UInt8} {t : Taken (List (String × α))}
    (h : readMembers .stream member first seen s = .ok t) (hseen : ∀ m ∈ seen, P m.2) :
    ∀ m ∈ t.value, P m.2 := by
  fun_induction readMembers .stream member first seen s with
  | case1 => cases h
  | case2 =>
    cases h
    exact fun m hm => hseen m (List.mem_reverse.mp hm)
  | case3 => cases h
  | case4 => cases h
  | case5 _ _ _ _ _ _ _ _ hm _ _ _ ih => exact ih h (List.forall_mem_cons.mpr ⟨hmember hm, hseen⟩)

theorem of_afterColon {value : Reader α} (hvalue : ∀ {s t}, value.scan s = .ok t → P t.value)
    {s : List UInt8} {t : Taken α} (h : (afterColon value).scan s = .ok t) : P t.value := by
  obtain ⟨rest, -, h⟩ := bind_eq_ok.mp h
  exact hvalue h

end Entries

theorem Members.mem_insert {key : String} {value : Value} {m : String × Value} :
    ∀ {members : Members}, m ∈ insert key value members → m = (key, value) ∨ m ∈ members
  | [], h => .inl (List.mem_singleton.mp h)
  | (k, v) :: members, h => by
    rw [insert] at h
    split at h
    · exact List.mem_cons.mp h
    · split at h
      · exact (List.mem_cons.mp h).imp_right (List.mem_cons_of_mem _)
      · rcases List.mem_cons.mp h with rfl | h
        · exact .inr List.mem_cons_self
        · exact (mem_insert h).imp_right (List.mem_cons_of_mem _)

/-- The members of an object are among those that are written. -/
theorem Members.mem_of_mem_ofList {written : List (String × Value)} {m : String × Value}
    (h : m ∈ ofList written) : m ∈ written := by
  suffices hfrom : ∀ (written : List (String × Value)) (kept : Members),
      m ∈ written.foldl (fun members n => members.insert n.1 n.2) kept →
      m ∈ kept ∨ m ∈ written from (hfrom written [] h).resolve_left List.not_mem_nil
  intro written
  induction written with
  | nil => exact fun kept h => .inl h
  | cons n written ih =>
    intro kept h
    rcases ih _ h with h | h
    · rcases mem_insert h with rfl | h
      · exact .inr List.mem_cons_self
      · exact .inl h
    · exact .inr (List.mem_cons_of_mem _ h)

theorem fits_of_lead {b : UInt8} {letters : List Char} {value : Value}
    (h : lead? b = some (.word letters value)) (room : Nat) : Fits room value := by
  unfold lead? at h
  split at h <;> try cases h
  · exact .null room
  · exact .bool room true
  · exact .bool room false
  · split at h <;> cases h

/-- A value fits into one room more than what its parts fit into. -/
theorem readWith_fits {room : Nat} {part : Option (Reader Value)}
    (hpart : ∀ inner, part = some inner → ∃ below, room = below + 1
      ∧ ∀ {s t}, inner.scan s = .ok t → Fits below t.value) {s : List UInt8} {t : Taken Value}
    (h : (readWith .stream part).scan s = .ok t) : Fits room t.value := by
  simp only [readWith] at h
  split at h
  · cases h
  · -- Words, numbers and texts have no parts; lists and objects are not read without room for them.
    split at h
    · cases h
    · rename_i hlead
      obtain ⟨rest, -, rfl⟩ := map_eq_ok.mp h
      exact fits_of_lead hlead room
    · obtain ⟨n, -, rfl⟩ := map_eq_ok.mp h
      exact .number room n.value
    · obtain ⟨q, -, rfl⟩ := map_eq_ok.mp h
      exact .string room q.value
    · cases h
    · cases h
    · obtain ⟨items, hitems, rfl⟩ := map_eq_ok.mp h
      obtain ⟨below, rfl, hinner⟩ := hpart _ rfl
      exact .array (forall_of_readElements hinner hitems nofun)
    · obtain ⟨members, hmembers, rfl⟩ := map_eq_ok.mp h
      obtain ⟨below, rfl, hinner⟩ := hpart _ rfl
      have hall := forall_of_readMembers (of_afterColon hinner) hmembers nofun
      exact .object fun m hm => hall m (Members.mem_of_mem_ofList hm)

/-- **`readValue_fits`** -- what is read fits into the room that there was. -/
theorem readValue_fits {room : Nat} {s : List UInt8} {t : Taken Value}
    (h : (readValue .stream room).scan s = .ok t) : Fits room t.value := by
  induction room generalizing s t with
  | zero => exact readWith_fits (fun inner hinner => by cases hinner) h
  | succ room ih =>
    refine readWith_fits (fun inner hinner => ?_) h
    cases hinner
    exact ⟨room, rfl, ih⟩

theorem Value.fits_of_ofBytes {bytes : List UInt8} {v : Value} (h : Value.ofBytes bytes = .ok v) :
    Fits maxNesting v := by
  obtain ⟨taken, htaken, h⟩ := bind_eq_ok.mp h
  split at h
  · cases h
    exact readValue_fits htaken
  · cases h

end Json

open Json

/-! ## Chapters that were read -/

/-- **`Chapter.Decoded`** -- a chapter that came from a text, from bytes or from a file. -/
inductive Chapter.Decoded (v : Value) : Prop
  | ofText {text : String} : Chapter.ofText text = .ok v → Decoded v
  | ofBytes {bytes : List UInt8} : Chapter.ofBytes bytes = .ok v → Decoded v
  | load {files : Snapshot} {path : RawText} : Chapter.load files path = .ok v → Decoded v

theorem Chapter.Decoded.fits {v : Value} (h : Decoded v) : Fits maxNesting v := by
  cases h with
  | ofText h =>
    rw [ofText_eq_ok_iff, Value.ofText_eq_ofBytes] at h
    exact Value.fits_of_ofBytes h
  | ofBytes h => exact Value.fits_of_ofBytes (ofBytes_eq_ok_iff.mp h)
  | load h =>
    obtain ⟨bytes, -, h⟩ := load_eq_ok_iff.mp h
    exact Value.fits_of_ofBytes h

/-! ## Levels -/

namespace Chapter

variable {room limit : Nat} {v : Value}

/-- No block stands below a limit that the room does not reach. -/
theorem placesAt_eq_nil (h : Fits room v) (hlimit : room < 2 * (limit + 1)) :
    placesAt v (limit + 1) = [] := by
  rw [List.eq_nil_iff_forall_not_mem]
  intro place hplace
  obtain ⟨b, hstands⟩ := mem_placesAt.mp hplace
  have hroom := h.length_le (hstands.resolve?_eq nofun)
  have hlevel := hstands.two_mul_level_le
  omega

theorem kind_ne_tooDeep_of_fits (h : Fits room v) (hlimit : room < 2 * (limit + 1))
    {d : Diagnostic} (hd : d ∈ diagnostics limit v) : d.kind ≠ .tooDeep := by
  have hpaths := (truncates limit 0 v).paths_eq fun _ hkind => hkind
  rw [placesAt_eq_nil h hlimit, List.map_eq_nil_iff, List.filter_eq_nil_iff] at hpaths
  simpa using hpaths d hd

/-- Where a limit is not met, no higher one tells anything else. -/
theorem diagnostics_eq_of_fits (h : Fits room v) (hlimit : room < 2 * (limit + 1)) (extra : Nat) :
    diagnostics (limit + extra) v = diagnostics limit v := by
  have htruncates := truncates limit extra v
  rw [placesAt_eq_nil h hlimit] at htruncates
  exact htruncates.eq_of_nil

end Chapter

/-! ## Towers of quotes -/

/-- **`tower`** -- a listing under so many levels of quotes, each of which holds nothing else. -/
def tower : (levels : Nat) → Value
  | 0 => .object [("content", .string "x"), ("type", .string "code")]
  | levels + 1 => .object [("blocks", .array [tower levels]), ("type", .string "blockquote")]

/-- A chapter with a tower for its only block. -/
def towerChapter (levels : Nat) : Value :=
  .object [("anchor", .string "a"), ("blocks", .array [tower levels]), ("chapterId", .string "c"),
    ("order", .string "1"), ("title", .string "T")]

theorem regular_tower (levels : Nat) : Regular (2 * levels + 1) (tower levels) := by
  induction levels with
  | zero =>
    refine .object (by decide) ?_
    simp only [List.forall_mem_cons]
    exact ⟨.string _ _, .string _ _, nofun⟩
  | succ levels ih =>
    have hkeys : ["blocks", "type"].Pairwise (· < ·) := by decide
    refine .object hkeys ?_
    simp only [List.forall_mem_cons]
    exact ⟨.array (List.forall_mem_singleton.mpr ih), .string _ _, nofun⟩

theorem regular_towerChapter (levels : Nat) :
    Regular (2 * levels + 3) (towerChapter levels) := by
  have hkeys : ["anchor", "blocks", "chapterId", "order", "title"].Pairwise (· < ·) := by decide
  refine .object hkeys ?_
  simp only [List.forall_mem_cons]
  exact ⟨.string _ _, .array (List.forall_mem_singleton.mpr (regular_tower levels)), .string _ _,
    .string _ _, .string _ _, nofun⟩

/-- Sixty-two levels of quotes are the most that can be read. -/
theorem Json.Value.ofText_tower :
    Value.ofText (towerChapter 62).pretty = .ok (towerChapter 62) := by
  have hread := Value.ofText_pretty (regular_towerChapter 62) blanks_nil
  rwa [String.append_empty] at hread

theorem Json.Value.ofBytes_tower :
    Value.ofBytes (Utf8.bytes (towerChapter 62).pretty) = .ok (towerChapter 62) := by
  rw [← Value.ofText_eq_ofBytes, Value.ofText_tower]

/-- A walk that has no more room than the tower has levels of quotes meets its limit there. -/
theorem Finding.exists_tooDeep {limit room levels : Nat} (hroom : room ≤ levels)
    (base place : Path) :
    ∃ d ∈ Finding.diagnose limit room base (.block place (tower levels)), d.kind = .tooDeep := by
  induction room generalizing levels base place with
  | zero => exact ⟨_, List.mem_singleton_self _, rfl⟩
  | succ room ih =>
    obtain ⟨levels, rfl⟩ := Nat.exists_eq_succ_of_ne_zero (Nat.ne_zero_of_lt hroom)
    have hsurvey : Block.survey (tower (levels + 1))
        = [.block [.field "blocks", .index 0] (tower levels)] := rfl
    rw [diagnose_block_succ, hsurvey, Survey.diagnose, List.flatMap_singleton]
    exact ih (Nat.le_of_succ_le_succ hroom) _ _

theorem Chapter.exists_tooDeep {limit levels : Nat} (hlimit : limit ≤ levels) :
    ∃ d ∈ diagnostics limit (towerChapter levels), d.kind = .tooDeep := by
  have hsurvey : survey (towerChapter levels)
      = [.block [.field "blocks", .index 0] (tower levels)] := rfl
  rw [diagnostics, hsurvey, Survey.diagnose, List.flatMap_singleton]
  exact Finding.exists_tooDeep hlimit _ _

/-! ## The limit of what can be read -/

/-- **`errors_of_decoded`** -- no block of a chapter that was read is too deep under a limit of 63
or more, and all such limits give the same errors. Below 63 the limit can be met: there is one text
that is read, as a text, from bytes or from a file, and has a block that is too deep under every
lower limit. -/
theorem Validator.errors_of_decoded :
    (∀ v, Chapter.Decoded v → ∀ validator : Validator, 63 ≤ validator.limit →
      (∀ d ∈ (validator.report v).errors, d.kind ≠ .tooDeep)
      ∧ ∀ other : Validator, 63 ≤ other.limit →
        (other.report v).errors = (validator.report v).errors)
    ∧ ∃ text v, Chapter.ofText text = .ok v ∧ Chapter.ofBytes (Utf8.bytes text) = .ok v
      ∧ (∀ (files : Snapshot) (path : RawText), files path = .content (Utf8.bytes text) →
        Chapter.load files path = .ok v)
      ∧ ∀ validator : Validator, validator.limit < 63 →
        ∃ d ∈ (validator.report v).errors, d.kind = .tooDeep := by
  constructor
  · intro v hdecoded
    have heq (validator : Validator) (hlimit : 63 ≤ validator.limit) :
        (validator.report v).errors = Chapter.diagnostics 63 v := by
      obtain ⟨extra, hextra⟩ := Nat.exists_eq_add_of_le hlimit
      show Chapter.diagnostics validator.limit v = _
      rw [hextra]
      exact Chapter.diagnostics_eq_of_fits hdecoded.fits (by decide) extra
    intro validator hlimit
    refine ⟨fun d hd => ?_, fun other hother => ?_⟩
    · rw [heq validator hlimit] at hd
      exact Chapter.kind_ne_tooDeep_of_fits hdecoded.fits (by decide) hd
    · rw [heq validator hlimit, heq other hother]
  · refine ⟨(towerChapter 62).pretty, towerChapter 62,
      Chapter.ofText_eq_ok_iff.mpr Value.ofText_tower,
      Chapter.ofBytes_eq_ok_iff.mpr Value.ofBytes_tower, fun files path hfile => ?_,
      fun validator hlimit => Chapter.exists_tooDeep (Nat.le_of_lt_succ hlimit)⟩
    exact Chapter.load_eq_ok_iff.mpr ⟨_, hfile, Value.ofBytes_tower⟩

/-- The chapter with the highest tower that can be read has no block that is too deep under the
standard limit. -/
theorem Validator.errors_of_decoded_tower :
    Chapter.Decoded (towerChapter 62) ∧ 63 ≤ standard.limit
      ∧ ∀ d ∈ (standard.report (towerChapter 62)).errors, d.kind ≠ .tooDeep := by
  have hdecoded : Chapter.Decoded (towerChapter 62) :=
    .ofText (Chapter.ofText_eq_ok_iff.mpr Value.ofText_tower)
  have hlimit : 63 ≤ standard.limit := by decide
  exact ⟨hdecoded, hlimit, (errors_of_decoded.1 _ hdecoded standard hlimit).1⟩

end ChapterCheck
