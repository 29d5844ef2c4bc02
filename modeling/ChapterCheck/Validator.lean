/-
# ChapterCheck.Validator -- options that make sense

A `Validator` is a set of options under which validation means something: blocks are in reach, and
reports say what a chapter was held to. It has no other state, so one validator serves any number of
chapters in any order.
-/
import ChapterCheck.Chapter
import ChapterCheck.Failure
import ChapterCheck.Options
import ChapterCheck.Report
import ChapterCheck.Text.Blank

namespace ChapterCheck

open Json

/-- A **`Validator`** -- options with at least one level and a version that shows. -/
structure Validator where
  options : Options
  reaches : options.maxDepth ≠ 0
  shows : Text.isBlank options.schemaVersion = false

namespace Validator

/-- **`ofOptions`** -- the validator with these options, if they make sense. The limit is looked at
first. -/
def ofOptions (options : Options) : Except Misconfiguration Validator :=
  if reaches : options.maxDepth = 0 then .error .noDepth
  else if shows : Text.isBlank options.schemaVersion = true then .error .noVersion
  else .ok ⟨options, reaches, by simpa using shows⟩

/-- The validator with the default options. -/
def standard : Validator :=
  ⟨Options.standard, by decide, by decide⟩

/-- The validator with the default version and a limit that leaves blocks in reach. -/
def withDepth (depth : UInt64) (reaches : depth ≠ 0) : Validator :=
  ⟨{ Options.standard with maxDepth := depth }, reaches, standard.shows⟩

/-- How deep blocks may be nested. -/
def limit (validator : Validator) : Nat :=
  validator.options.maxDepth.toNat

/-- **`report`** -- the report on a chapter. -/
def report (validator : Validator) (chapter : Value) : Report where
  schemaVersion := validator.options.schemaVersion
  errors := Chapter.diagnostics validator.limit chapter

/-- **`ensureValid`** -- refuses a chapter that is not in order, with its report. -/
def ensureValid (validator : Validator) (chapter : Value) : Except Failure Unit :=
  let report := validator.report chapter
  if report.ok then .ok ()
  else .error (.validation ("chapter IR validation failed:\n" ++ report.text))

theorem ofOptions_eq_ok_iff {options : Options} {validator : Validator} :
    ofOptions options = .ok validator ↔ validator.options = options := by
  constructor
  · intro h
    unfold ofOptions at h
    split at h
    · cases h
    · split at h
      · cases h
      · cases h; rfl
  · rintro rfl
    simp [ofOptions, validator.reaches, validator.shows]

/-- The options are all that tells validators apart. -/
theorem eq_of_options {validator other : Validator} (h : other.options = validator.options) :
    other = validator := by
  cases validator
  cases other
  cases h
  rfl

end Validator

end ChapterCheck
