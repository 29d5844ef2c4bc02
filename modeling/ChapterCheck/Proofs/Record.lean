/-
# ChapterCheck.Proofs.Record -- the record says what the reports say

The notes of a walk are its diagnostics in their order, and in front of each that tells of a block
that is too deep an event says the same (`Chapter.notes_eq`). Taken apart, they are the report and
the warnings of the record.

What has to be on record is written down from the reports alone: `recordOf` for a report,
`Batch.Recorded` for an entry of a batch. `Batch.record_eq` says that it is what is put on record.
-/
import Mathlib.Data.List.Forall2
import ChapterCheck.Proofs.Batches
import ChapterCheck.Proofs.Plain

namespace ChapterCheck

open Json

/-! ## Notes and diagnostics -/

/-- The notes that go with a diagnostic. -/
def Note.ofDiagnostic (limit : Nat) (d : Diagnostic) : List Note :=
  if d.kind = .tooDeep then [.recorded (.nestedTooDeep d.path limit), .told d] else [.told d]

theorem Note.ofDiagnostic_of_ne {limit : Nat} {d : Diagnostic} (h : d.kind ≠ .tooDeep) :
    ofDiagnostic limit d = [.told d] :=
  if_neg h

/-- The notes on a finding that is no matter of depth go with what is told of it. -/
theorem Finding.notes_eq {limit room : Nat} {base : Path} {f : Finding}
    (hf : ∀ place what, f = .defect place what → what.kind ≠ .tooDeep) :
    f.notes limit room base
      = (f.diagnose limit room base).flatMap (Note.ofDiagnostic limit) := by
  -- By induction on the room, in step with the walk.
  induction room generalizing base f with
  | zero =>
    cases f with
    | defect place what =>
      rw [diagnose_defect, List.flatMap_singleton, Note.ofDiagnostic_of_ne (hf place what rfl)]
      rfl
    | block place v => rfl
  | succ room ih =>
    cases f with
    | defect place what =>
      rw [diagnose_defect, List.flatMap_singleton, Note.ofDiagnostic_of_ne (hf place what rfl)]
      rfl
    | block place v =>
      rw [diagnose_block_succ, Survey.diagnose, List.flatMap_assoc, notes]
      apply List.flatMap_congr
      intro g hg
      apply ih
      rintro q what rfl
      exact Defect.Plain.kind_ne (Block.plain_survey v _ hg)

/-- **`notes_eq`** -- the notes of a walk through a chapter go with its diagnostics, one by one. -/
theorem Chapter.notes_eq (limit : Nat) (v : Value) :
    notes limit v = (diagnostics limit v).flatMap (Note.ofDiagnostic limit) := by
  rw [diagnostics, Survey.diagnose, List.flatMap_assoc, notes]
  apply List.flatMap_congr
  intro f hf
  apply Finding.notes_eq
  rintro place what rfl
  exact kind_ne_of_mem_survey hf

/-- What is told on a walk is the report. -/
theorem Chapter.told_notes (limit : Nat) (v : Value) :
    (notes limit v).filterMap Note.diagnostic? = diagnostics limit v := by
  rw [notes_eq]
  induction diagnostics limit v with
  | nil => rfl
  | cons d rest ih =>
    rw [List.flatMap_cons, List.filterMap_append, ih, Note.ofDiagnostic]
    split <;> rfl

/-- What is put on record on a walk are the blocks that are told as too deep, in the same order. -/
theorem Chapter.recorded_notes (limit : Nat) (v : Value) :
    (notes limit v).filterMap Note.event?
      = ((diagnostics limit v).filter (·.kind = .tooDeep)).map
        fun d => .nestedTooDeep d.path limit := by
  rw [notes_eq]
  induction diagnostics limit v with
  | nil => rfl
  | cons d rest ih =>
    rw [List.flatMap_cons, List.filterMap_append, ih, Note.ofDiagnostic, List.filter_cons]
    by_cases hkind : d.kind = .tooDeep
    · simp only [hkind, if_true, decide_true, List.map_cons]
      rfl
    · simp only [hkind, if_false, decide_false, Bool.false_eq_true]
      rfl

/-! ## What has to be on record -/

/-- **`onRecord`** -- what is on record as a document: how much it matters, what it says, and the
fields of its case. -/
def onRecord (level message : String) (fields : Members) : Value :=
  .object (("level", .string level) :: ("message", .string message) :: fields)

/-- **`recordOf`** -- what has to be on record of the validation of a chapter, from its identifier
and its report: a warning for each diagnostic of the kind `tooDeep`, then that it is done. -/
def recordOf (limit : Nat) (id : Option String) (report : Report) : List Value :=
  ((report.errors.filter (·.kind = .tooDeep)).map fun d =>
      onRecord "WARN" "block nesting too deep"
        [("path", .string d.path.render), ("max_depth", Event.count limit)])
    ++ [onRecord "DEBUG" "chapter validated"
      ((id.map fun s => ("chapter_id", .string s)).toList
        ++ [("errors", Event.count report.errors.length)])]

/-- **`Batch.Recorded`** -- what has to be on record of an entry of a batch: a warning with the
failure of the entry if its file could not be loaded, and otherwise the record of the validation of
its chapter, with the identifier of the entry. -/
inductive Batch.Recorded (files : Snapshot) (validator : Validator) (e : Entry) :
    List Value → Prop
  | failed {failure : Failure} : Chapter.load files e.path = .error failure →
      e.outcome = .unreadable failure →
      Recorded files validator e [onRecord "WARN" "chapter load failed"
        [("path", .string e.path.shown), ("error", .string failure.message)]]
  | checked {chapter : Value} {record : List Value} : Chapter.load files e.path = .ok chapter →
      e.outcome = .checked (validator.report chapter) →
      record = (validator.events chapter).map Event.json →
      record = recordOf validator.limit e.chapterId (validator.report chapter) →
      Recorded files validator e record

/-! ## What is on record -/

/-- The record of a validation says what its report says. -/
theorem Validator.events_eq (validator : Validator) (v : Value) :
    (validator.events v).map Event.json
      = recordOf validator.limit (Chapter.id? v) (validator.report v) := by
  rw [events, Chapter.recorded_notes, List.map_append, List.map_map]
  rfl

theorem Chapter.id?_eq_some_iff {v : Value} {s : String} :
    id? v = some s ↔ v.field? "chapterId" = some (.string s) := by
  rw [id?, Option.bind_eq_some_iff]
  constructor
  · rintro ⟨w, hw, hs⟩
    rw [hw, Value.asString?_eq_some_iff.mp hs]
  · intro h
    exact ⟨_, h, rfl⟩

/-- What comes of a path is on record as its entry has it. -/
theorem Batch.recorded_check (files : Snapshot) (validator : Validator) (path : RawText) :
    Recorded files validator (check files validator path)
      ((checkEvents files validator path).map Event.json) := by
  unfold checkEvents
  cases hload : Chapter.load files path with
  | ok chapter =>
    have hentry : check files validator path
        = ⟨path, Chapter.id? chapter, .checked (validator.report chapter)⟩ := by
      rw [check_eq, hload]
      rfl
    rw [hentry]
    exact .checked hload rfl rfl (validator.events_eq chapter)
  | error failure =>
    have hentry : check files validator path = ⟨path, none, .unreadable failure⟩ := by
      rw [check_eq, hload]
      rfl
    rw [hentry]
    exact .failed hload rfl

/-- **`record_eq`** -- the record of a validation is what its report calls for, with the identifier
of the chapter if that is a string. A batch that is done one path after the other is on record as
its entries call for, in order: first that a number of threads does not matter, if one is given, and
last how many files came out in which way, every one counted once. -/
theorem Batch.record_eq (validator : Validator) :
    (∀ v, ∃ id, (∀ s, id = some s ↔ v.field? "chapterId" = some (.string s))
      ∧ (validator.events v).map Event.json = recordOf validator.limit id (validator.report v))
    ∧ ∀ (files : Snapshot) (staff : Staff) (threads : Option Nat) (schedule : List Nat)
      (paths : List RawText),
      ∃ batch records, done files staff validator ⟨false, threads⟩ schedule paths = .ok batch
        ∧ batch.entries.map Entry.path = paths
        ∧ List.Forall₂ (Recorded files validator) batch.entries records
        ∧ (events files validator ⟨false, threads⟩ paths batch).map Event.json
          = (if threads.isSome then [onRecord "DEBUG" "'threads' ignored without parallel mode" []]
              else [])
            ++ records.flatten
            ++ [onRecord "INFO" "batch validated" [("passed", Event.count batch.passed),
              ("failed", Event.count batch.failed), ("unreadable", Event.count batch.unreadable)]]
        ∧ batch.passed + batch.failed + batch.unreadable = paths.length := by
  constructor
  · intro v
    exact ⟨Chapter.id? v, fun s => Chapter.id?_eq_some_iff, validator.events_eq v⟩
  · intro files staff threads schedule paths
    refine ⟨⟨paths.map (check files validator)⟩,
      paths.map fun path => (checkEvents files validator path).map Event.json, rfl, ?_, ?_, ?_, ?_⟩
    · rw [List.map_map]
      exact (List.map_congr_left fun path _ => path_check files validator path).trans
        (List.map_id paths)
    · rw [List.forall₂_map_left_iff, List.forall₂_map_right_iff, List.forall₂_same]
      exact fun path _ => recorded_check files validator path
    · have hthreads : ((if threads.isSome then [Event.threadsIgnored] else []).map Event.json)
          = if threads.isSome then [onRecord "DEBUG" "'threads' ignored without parallel mode" []]
            else [] := by
        cases threads <;> rfl
      rw [← hthreads, ← List.flatMap_def, ← List.map_flatMap, ← List.map_append]
      show (_ ++ [_] : List Event).map Event.json = _
      rw [List.map_append]
      rfl
    · rw [passed_add_failed_add_unreadable, List.length_map]

end ChapterCheck
