/-
# ChapterCheck.Proofs.Requests -- when a request has a batch

A request is carried out in stages: its options are read, the limit is changed, a validator is made,
and the batch is done. What each of them asks for is said apart from it, one by one, in
`Request.Settled`: the settings of the request make sense. There is a batch exactly then, if the
workers for it can be had, and it is what comes of the paths one by one
(`Request.batch_eq_ok_iff`).

Where the settings make no sense, no file but that of the options has been looked at, so the trouble
is the same whatever the others hold (`Request.batch_error_congr`).
-/
import ChapterCheck.CommandLine.Outcome
import ChapterCheck.Proofs.Batches

namespace ChapterCheck

open Json

/-! ## Settings -/

/-- Settings make sense if there is a validator with them. -/
theorem Options.exists_validator_iff {options : Options} :
    (∃ validator : Validator, validator.options = options) ↔
      1 ≤ options.maxDepth.toNat
        ∧ ∃ c ∈ options.schemaVersion.toList, Text.isWhiteSpace c = false := by
  have hshows : Text.isBlank options.schemaVersion = false ↔
      ∃ c ∈ options.schemaVersion.toList, Text.isWhiteSpace c = false := by
    rw [Text.isBlank, List.all_eq_false]
    simp only [Bool.not_eq_true]
  have hreaches : options.maxDepth ≠ 0 ↔ 1 ≤ options.maxDepth.toNat := by
    rw [Ne, ← UInt64.toNat_inj]
    exact Nat.pos_iff_ne_zero.symm
  rw [← hshows, ← hreaches]
  constructor
  · rintro ⟨validator, rfl⟩
    exact ⟨validator.reaches, validator.shows⟩
  · rintro ⟨hreaches, hshows⟩
    exact ⟨⟨options, hreaches, hshows⟩, rfl⟩

namespace CommandLine

/-- **`Request.Base`** -- the options that a request begins with: those in its file, or, if none is
given, the standard ones. -/
def Request.Base (files : Snapshot) (r : Request) (base : Options) : Prop :=
  match r.optionsPath with
  | some path => ∃ bytes, files path = .content bytes ∧ Options.ofBytes bytes = .ok base
  | none => Options.standard = base

/-- The options of a request, from those that it begins with: only the limit can be told apart. -/
def Request.withLimit (r : Request) (base : Options) : Options :=
  { base with maxDepth := r.maxDepth.getD base.maxDepth }

/-- **`Request.Settled`** -- the settings of a request make sense: options that can be read, and,
when the limit is changed as told, at least one level, a version that shows, and not a number of
threads that is zero where there are to be some. -/
structure Request.Settled (files : Snapshot) (r : Request) (options : Options) : Prop where
  based : ∃ base, r.Base files base ∧ r.withLimit base = options
  reaches : 1 ≤ options.maxDepth.toNat
  shows : ∃ c ∈ options.schemaVersion.toList, Text.isWhiteSpace c = false
  staffed : ¬(r.parallel = true ∧ r.threads = some 0)

/-! ## The stages of a request -/

section Stages

variable {files files' : Snapshot} {staff : Staff} {r : Request} {options : Options}
  {validator : Validator}

theorem loadOptions_eq_ok_iff {path : RawText} :
    loadOptions files path = .ok options ↔
      ∃ bytes, files path = .content bytes ∧ Options.ofBytes bytes = .ok options := by
  unfold loadOptions
  split
  · simp_all
  · simp_all
  · rename_i bytes hbytes
    split <;> simp_all

theorem requestedOptions_eq_ok_iff :
    requestedOptions files r = .ok options ↔
      ∃ base, r.Base files base ∧ r.withLimit base = options := by
  unfold requestedOptions Request.Base Request.withLimit
  cases r.optionsPath with
  | some path =>
    show loadOptions files path >>= _ = _ ↔ _
    rw [bind_eq_ok]
    refine exists_congr fun base => and_congr loadOptions_eq_ok_iff ?_
    cases r.maxDepth <;> exact (Except.ok.injEq _ _).to_iff
  | none =>
    show Except.ok Options.standard >>= _ = _ ↔ _
    rw [bind_eq_ok]
    refine exists_congr fun base => and_congr (Except.ok.injEq _ _).to_iff ?_
    cases r.maxDepth <;> exact (Except.ok.injEq _ _).to_iff

/-- The validator of a request is the one with the options of the request. -/
theorem requestedValidator_eq_ok_iff :
    requestedValidator files r = .ok validator ↔
      requestedOptions files r = .ok validator.options := by
  rw [requestedValidator, bind_eq_ok]
  simp only [sensible_eq_ok_iff, Validator.ofOptions_eq_ok_iff]
  constructor
  · rintro ⟨options, hoptions, rfl⟩
    exact hoptions
  · intro h
    exact ⟨_, h, rfl⟩

/-- There is a batch exactly when the settings make sense and the plan is manned, and then it is
what comes of the paths one by one. -/
theorem Request.batch_eq_ok_iff {b : Batch} :
    r.batch files staff = .ok b ↔ ∃ validator : Validator, r.Settled files validator.options
      ∧ r.plan.Manned staff ∧ b = ⟨r.paths.map (Batch.check files validator)⟩ := by
  have hserves : r.plan.Serves (Batch.inOrder r.paths) r.paths :=
    Plan.serves_of_perm (List.Perm.refl _) r.plan
  rw [Request.batch, bind_eq_ok]
  simp only [sensible_eq_ok_iff, requestedValidator_eq_ok_iff, requestedOptions_eq_ok_iff,
    Batch.done_eq_ok_iff hserves]
  refine exists_congr fun validator => ?_
  constructor
  · rintro ⟨hbased, hplan, hmanned, hb⟩
    obtain ⟨hreaches, hshows⟩ := Options.exists_validator_iff.mp ⟨validator, rfl⟩
    exact ⟨⟨hbased, hreaches, hshows, hplan⟩, hmanned, hb⟩
  · rintro ⟨hsettled, hmanned, hb⟩
    exact ⟨hsettled.based, hsettled.staffed, hmanned, hb⟩

theorem Request.exists_batch_iff :
    (∃ b, r.batch files staff = .ok b) ↔
      (∃ options, r.Settled files options) ∧ r.plan.Manned staff := by
  simp only [batch_eq_ok_iff]
  constructor
  · rintro ⟨-, validator, hsettled, hmanned, -⟩
    exact ⟨⟨_, hsettled⟩, hmanned⟩
  · rintro ⟨⟨options, hsettled⟩, hmanned⟩
    obtain ⟨validator, rfl⟩ := Options.exists_validator_iff.mpr ⟨hsettled.reaches, hsettled.shows⟩
    exact ⟨_, validator, hsettled, hmanned, rfl⟩

/-- A request has one set of options. -/
theorem Request.Settled.unique {other : Options} (h : r.Settled files options)
    (hother : r.Settled files other) : options = other := by
  have heq := (requestedOptions_eq_ok_iff.mpr h.based).symm.trans
    (requestedOptions_eq_ok_iff.mpr hother.based)
  exact Except.ok.inj heq

/-! ## Without a batch -/

/-- A request reads nothing but its options file before it does the batch. -/
theorem requestedValidator_congr
    (h : ∀ path, r.optionsPath = some path → files' path = files path) :
    requestedValidator files' r = requestedValidator files r := by
  have hload (path : RawText) (hpath : r.optionsPath = some path) :
      loadOptions files' path = loadOptions files path := by
    rw [loadOptions, loadOptions, h path hpath]
  unfold requestedValidator requestedOptions
  cases hpath : r.optionsPath with
  | some path => simp only [hload path hpath]
  | none => rfl

/-- A request without a batch has not looked at any file but that of the options. -/
theorem Request.batch_error_congr {trouble : Trouble}
    (h : ∀ path, r.optionsPath = some path → files' path = files path)
    (hbatch : r.batch files staff = .error trouble) : r.batch files' staff = .error trouble := by
  rw [Request.batch, requestedValidator_congr h]
  rw [Request.batch] at hbatch
  cases hvalidator : requestedValidator files r with
  | error trouble => rwa [hvalidator] at hbatch
  | ok validator =>
    rw [hvalidator] at hbatch
    show sensible (Batch.done files' staff validator r.plan _ r.paths) = _
    change sensible (Batch.done files staff validator r.plan _ r.paths) = _ at hbatch
    cases hdone : Batch.done files staff validator r.plan (Batch.inOrder r.paths) r.paths with
    | ok b =>
      rw [hdone] at hbatch
      cases hbatch
    | error m => rwa [Batch.done_error_congr hdone, ← hdone]

end Stages

end CommandLine

end ChapterCheck
