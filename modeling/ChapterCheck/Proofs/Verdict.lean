/-
# ChapterCheck.Proofs.Verdict -- what the exit status says

The status is zero exactly when the settings make sense and all paths pass under them (`Passes`),
and otherwise one. `exitStatus_validate` says so of command lines, with what is printed besides:
where there is no batch, nothing but the reason; in text, a summary that counts every path once.

Two things come between that no file is to blame for. Workers may not be had; that is trouble like
any other. And a document has no room for a path that is no text (`Request.Printable`): there the
program breaks off, with a status of its own (`exists_broken`).
-/
import ChapterCheck.Proofs.Requests

namespace ChapterCheck

open Json

/-! ## Documents of batches -/

/-- What is made of every element is made of all. -/
theorem mapM_eq_some {α β : Type} {f : α → Option β} {g : α → β} {items : List α}
    (h : ∀ a ∈ items, f a = some (g a)) : items.mapM f = some (items.map g) := by
  induction items with
  | nil => rfl
  | cons a items ih =>
    rw [List.forall_mem_cons] at h
    rw [List.mapM_cons, h.1, ih h.2]
    rfl

/-- If nothing can be made of one element, nothing is made of all. -/
theorem mapM_eq_none {α β : Type} {f : α → Option β} {items : List α} {a : α} (hmem : a ∈ items)
    (h : f a = none) : items.mapM f = none := by
  induction items with
  | nil => cases hmem
  | cons b items ih =>
    rw [List.mapM_cons]
    rcases List.mem_cons.mp hmem with rfl | hmem
    · rw [h]
      rfl
    · rw [ih hmem]
      cases f b <;> rfl

/-- A file whose path is a text has a document, and the path stands there as it is shown. -/
theorem Entry.json?_eq {e : Entry} (h : e.path.text?.isSome) :
    e.json? = some (e.json e.path.shown) := by
  obtain ⟨text, htext⟩ := Option.isSome_iff_exists.mp h
  rw [json?, htext, RawText.shown_of_text? htext]
  rfl

/-- If all paths are texts, a batch has a document. -/
theorem Batch.json?_eq {b : Batch} (h : ∀ e ∈ b.entries, e.path.text?.isSome) :
    b.json? = some (.array (b.entries.map fun e => e.json e.path.shown)) := by
  rw [json?, mapM_eq_some fun e he => Entry.json?_eq (h e he)]
  rfl

/-- And only then. -/
theorem Batch.json?_eq_none {b : Batch} {e : Entry} (he : e ∈ b.entries)
    (h : ¬e.path.text?.isSome) : b.json? = none := by
  have hnone : e.json? = none := by
    rw [Entry.json?, Option.not_isSome_iff_eq_none.mp h]
    rfl
  rw [json?, mapM_eq_none he hnone]
  rfl

namespace CommandLine

/-! ## Paths that pass -/

/-- **`Passes`** -- a path that leads to a chapter with an empty report under some options. -/
def Passes (files : Snapshot) (options : Options) (path : RawText) : Prop :=
  ∃ bytes chapter, files path = .content bytes ∧ Value.ofBytes bytes = .ok chapter
    ∧ ∃ validator : Validator, validator.options = options
      ∧ (validator.report chapter).errors = []

/-- An entry counts as passed exactly when its path passes under the options. -/
theorem passed_check_iff {files : Snapshot} {validator : Validator} {path : RawText} :
    (Batch.check files validator path).passed = true ↔ Passes files validator.options path := by
  constructor
  · intro h
    unfold Batch.check at h
    split at h
    · rename_i chapter hload
      obtain ⟨bytes, hfile, hbytes⟩ := Chapter.load_eq_ok_iff.mp hload
      exact ⟨bytes, chapter, hfile, hbytes, validator, rfl, Report.ok_iff.mp h⟩
    · cases h
  · rintro ⟨bytes, chapter, hfile, hbytes, other, hother, hnone⟩
    obtain rfl : other = validator := Validator.eq_of_options hother
    rw [Batch.check, Chapter.load_eq_ok_iff.mpr ⟨bytes, hfile, hbytes⟩]
    exact Report.ok_iff.mpr hnone

/-- A batch is in order exactly when all its paths pass. -/
theorem allOk_iff {files : Snapshot} {validator : Validator} {paths : List RawText} :
    (Batch.mk (paths.map (Batch.check files validator))).allOk = true ↔
      ∀ path ∈ paths, Passes files validator.options path := by
  simp only [Batch.allOk, List.all_map, List.all_eq_true, Function.comp, passed_check_iff]

/-- A batch has the paths of its request, in their order. -/
theorem Request.paths_batch {files : Snapshot} {staff : Staff} {r : Request} {b : Batch}
    (h : r.batch files staff = .ok b) : b.entries.map Entry.path = r.paths := by
  obtain ⟨validator, -, -, rfl⟩ := batch_eq_ok_iff.mp h
  rw [List.map_map]
  exact List.map_id'' (Batch.path_check files validator) r.paths

/-! ## What is printed -/

/-- **`Printable`** -- a request whose format has room for its paths. A text shows any path; in a
document a path has to be a text. -/
def Request.Printable (r : Request) : Prop :=
  r.format = some .json → ∀ path ∈ r.paths, path.text?.isSome

theorem verdict_eq_zero_iff {b : Batch} : verdict b = 0 ↔ b.allOk = true := by
  rw [verdict]
  split <;> simp_all

theorem verdict_eq_one {b : Batch} (h : verdict b ≠ 0) : verdict b = 1 :=
  if_neg fun hok => h (verdict_eq_zero_iff.mpr hok)

theorem Request.printable_of_text {r : Request} (h : r.format.getD .text = .text) :
    r.Printable := by
  intro hjson
  rw [hjson] at h
  cases h

/-- The verdict on the batch of a request. -/
theorem Request.verdict_eq_zero_iff_passes {files : Snapshot} {staff : Staff} {r : Request}
    {b : Batch} (h : r.batch files staff = .ok b) : verdict b = 0 ↔
      ∃ options, r.Settled files options ∧ ∀ path ∈ r.paths, Passes files options path := by
  obtain ⟨validator, hsettled, -, rfl⟩ := batch_eq_ok_iff.mp h
  rw [verdict_eq_zero_iff, allOk_iff]
  constructor
  · exact fun h => ⟨validator.options, hsettled, h⟩
  · rintro ⟨options, hother, h⟩
    rwa [hother.unique hsettled] at h

/-- What is printed in a format that has room for the paths ends with the verdict. -/
theorem Request.exitStatus_printed {r : Request} {b : Batch} (h : r.Printable)
    (hpaths : b.entries.map Entry.path = r.paths) :
    (printed (r.format.getD .text) b).exitStatus = verdict b := by
  cases hformat : r.format.getD .text with
  | text => rfl
  | json =>
    have hjson : r.format = some .json := by
      cases hset : r.format with
      | none => rw [hset] at hformat; cases hformat
      | some format => rw [hset] at hformat; exact congrArg some hformat
    have htexts : ∀ e ∈ b.entries, e.path.text?.isSome := by
      intro e he
      exact h hjson e.path (hpaths ▸ List.mem_map_of_mem he)
    rw [printed, Batch.json?_eq htexts]

/-- In any other format the program breaks off. -/
theorem Request.printed_eq_broken {r : Request} {b : Batch} (h : ¬r.Printable)
    (hpaths : b.entries.map Entry.path = r.paths) :
    printed (r.format.getD .text) b = broken := by
  simp only [Printable, Classical.not_imp, Classical.not_forall] at h
  obtain ⟨hjson, path, hpath, htext⟩ := h
  rw [← hpaths] at hpath
  obtain ⟨e, he, rfl⟩ := List.mem_map.mp hpath
  rw [hjson, Option.getD_some, printed, Batch.json?_eq_none he htext]

/-! ## What a request comes to -/

/-- **`Request.Comes`** -- what a request comes to: trouble, a report that cannot be printed, or one
that is. -/
inductive Request.Comes (files : Snapshot) (staff : Staff) (r : Request) : Outcome → Prop
  | trouble (trouble : Trouble) :
      ¬((∃ options, r.Settled files options) ∧ r.plan.Manned staff) →
      Comes files staff r { exitStatus := 1, stderr := trouble.text }
  | broken : (∃ options, r.Settled files options) → r.plan.Manned staff → ¬r.Printable →
      Comes files staff r broken
  | report {b : Batch} {outcome : Outcome} : r.batch files staff = .ok b → r.Printable →
      outcome.exitStatus = verdict b →
      (r.format.getD .text = .text → outcome.stderr = line b.summary) →
      Comes files staff r outcome

theorem Request.comes (files : Snapshot) (staff : Staff) (r : Request) :
    r.Comes files staff (validate files staff r) := by
  rw [validate]
  cases hbatch : r.batch files staff with
  | error trouble =>
    refine .trouble trouble ?_
    rw [← exists_batch_iff, hbatch]
    exact nofun
  | ok b =>
    dsimp only
    by_cases hprintable : r.Printable
    · refine .report hbatch hprintable (exitStatus_printed hprintable (paths_batch hbatch)) ?_
      intro htext
      rw [htext]
      rfl
    · obtain ⟨hsettled, hmanned⟩ := exists_batch_iff.mp ⟨b, hbatch⟩
      rw [printed_eq_broken hprintable (paths_batch hbatch)]
      exact .broken hsettled hmanned hprintable

section Comes

variable {files : Snapshot} {staff : Staff} {r : Request} {outcome : Outcome}

theorem Request.Comes.exitStatus_eq_zero_iff (h : r.Comes files staff outcome) :
    outcome.exitStatus = 0 ↔
      (∃ options, r.Settled files options ∧ ∀ path ∈ r.paths, Passes files options path)
        ∧ r.plan.Manned staff ∧ r.Printable := by
  cases h with
  | trouble _ hnone =>
    refine ⟨fun hzero => (Nat.one_ne_zero hzero).elim, ?_⟩
    rintro ⟨⟨options, hsettled, -⟩, hmanned, -⟩
    exact (hnone ⟨⟨options, hsettled⟩, hmanned⟩).elim
  | broken _ _ hunprintable => exact ⟨nofun, fun h => (hunprintable h.2.2).elim⟩
  | report hbatch hprintable hstatus =>
    have hmanned := (exists_batch_iff.mp ⟨_, hbatch⟩).2
    rw [hstatus, verdict_eq_zero_iff_passes hbatch]
    exact ⟨fun h => ⟨h, hmanned, hprintable⟩, fun h => h.1⟩

theorem Request.Comes.exitStatus_eq_broken_iff (h : r.Comes files staff outcome) :
    outcome.exitStatus = 101 ↔
      (∃ options, r.Settled files options) ∧ r.plan.Manned staff ∧ ¬r.Printable := by
  cases h with
  | trouble _ hnone => exact ⟨nofun, fun h => (hnone ⟨h.1, h.2.1⟩).elim⟩
  | broken hsettled hmanned hunprintable =>
    exact ⟨fun _ => ⟨hsettled, hmanned, hunprintable⟩, fun _ => rfl⟩
  | @report b _ _ hprintable hstatus =>
    have hone : verdict b ≠ 0 → verdict b = 1 := verdict_eq_one
    rw [hstatus]
    constructor
    · omega
    · exact fun h => (h.2.2 hprintable).elim

theorem Request.Comes.eq_broken (h : r.Comes files staff outcome)
    (hbroken : outcome.exitStatus = 101) : outcome = CommandLine.broken := by
  obtain ⟨hsettled, hmanned, hunprintable⟩ := h.exitStatus_eq_broken_iff.mp hbroken
  cases h with
  | trouble _ hnone => exact (hnone ⟨hsettled, hmanned⟩).elim
  | broken => rfl
  | report _ hprintable => exact (hunprintable hprintable).elim

theorem Request.Comes.exitStatus_eq_one (h : r.Comes files staff outcome)
    (hzero : outcome.exitStatus ≠ 0) (hbroken : outcome.exitStatus ≠ 101) :
    outcome.exitStatus = 1 := by
  cases h with
  | trouble => rfl
  | broken => exact (hbroken rfl).elim
  | report _ _ hstatus =>
    rw [hstatus] at hzero ⊢
    exact verdict_eq_one hzero

theorem Request.Comes.stdout_of_none (h : r.Comes files staff outcome)
    (hnone : ¬((∃ options, r.Settled files options) ∧ r.plan.Manned staff)) :
    outcome.stdout = "" := by
  cases h with
  | trouble => rfl
  | broken => rfl
  | report hbatch => exact (hnone (exists_batch_iff.mp ⟨_, hbatch⟩)).elim

/-- A report in text comes with its counts. -/
theorem Request.Comes.summary (h : r.Comes files staff outcome)
    (hreport : (∃ options, r.Settled files options) ∧ r.plan.Manned staff)
    (htext : r.format.getD .text = .text) :
    ∃ passed failed unreadable : Nat,
      outcome.stderr = Nat.repr passed ++ " passed, " ++ Nat.repr failed ++ " failed, "
        ++ Nat.repr unreadable ++ " unreadable\n"
      ∧ passed + failed + unreadable = r.paths.length
      ∧ (outcome.exitStatus = 0 ↔ failed = 0 ∧ unreadable = 0) := by
  cases h with
  | trouble _ hnone => exact (hnone hreport).elim
  | broken _ _ hunprintable => exact (hunprintable (printable_of_text htext)).elim
  | @report b _ hbatch _ hstatus hstderr =>
    have hlength : b.entries.length = r.paths.length := by
      rw [← paths_batch hbatch, List.length_map]
    refine ⟨b.passed, b.failed, b.unreadable, ?_,
      b.passed_add_failed_add_unreadable.trans hlength, ?_⟩
    · rw [hstderr htext, line, Batch.summary, String.append_assoc]
      rfl
    · rw [hstatus, verdict_eq_zero_iff]
      exact b.allOk_iff_counts

end Comes

/-- Where there is no report, no file but that of the options matters. -/
theorem validate_congr {files files' : Snapshot} {staff : Staff} {r : Request}
    (hnone : ¬((∃ options, r.Settled files options) ∧ r.plan.Manned staff))
    (hfiles : ∀ path, r.optionsPath = some path → files' path = files path) :
    validate files' staff r = validate files staff r := by
  rw [← Request.exists_batch_iff] at hnone
  cases hbatch : r.batch files staff with
  | error trouble => rw [validate, validate, hbatch, Request.batch_error_congr hfiles hbatch]
  | ok b => exact (hnone ⟨b, hbatch⟩).elim

/-! ## The verdict -/

/-- **`exitStatus_validate`** -- what the exit status of a request says. It is zero exactly when the
settings make sense and every path passes under them, provided that workers can be had and the
format has room for the paths; it is 101, and nothing is printed, exactly when there is a report
that the format has no room for; otherwise it is one. Where the settings make no sense or there are
no workers, nothing is printed but the reason, and no file but that of the options matters. Where
there is a report, in text it comes with a summary whose counts add up to the number of paths, and
the status is zero exactly when the last two are. -/
theorem exitStatus_validate {arguments : List RawText} {r : Request} {verbosity : Nat}
    (hparse : Invocation.parse arguments = some ⟨.validate r, verbosity⟩) (files : Snapshot)
    (staff : Staff) :
    ((execute files staff arguments).exitStatus = 0 ↔
      (∃ options, r.Settled files options ∧ ∀ path ∈ r.paths, Passes files options path)
        ∧ r.plan.Manned staff ∧ r.Printable)
    ∧ ((execute files staff arguments).exitStatus = 101 ↔
      (∃ options, r.Settled files options) ∧ r.plan.Manned staff ∧ ¬r.Printable)
    ∧ ((execute files staff arguments).exitStatus = 101 →
      (execute files staff arguments).stdout = "")
    ∧ ((execute files staff arguments).exitStatus ≠ 0 →
      (execute files staff arguments).exitStatus ≠ 101 →
      (execute files staff arguments).exitStatus = 1)
    ∧ ((¬∃ options, r.Settled files options) ∨ ¬r.plan.Manned staff →
      (execute files staff arguments).stdout = ""
      ∧ ∀ files' : Snapshot, (∀ path, r.optionsPath = some path → files' path = files path) →
        execute files' staff arguments = execute files staff arguments)
    ∧ ((∃ options, r.Settled files options) → r.plan.Manned staff → r.format.getD .text = .text →
      ∃ passed failed unreadable : Nat,
        (execute files staff arguments).stderr
          = Nat.repr passed ++ " passed, " ++ Nat.repr failed ++ " failed, "
            ++ Nat.repr unreadable ++ " unreadable\n"
        ∧ passed + failed + unreadable = r.paths.length
        ∧ ((execute files staff arguments).exitStatus = 0 ↔ failed = 0 ∧ unreadable = 0)) := by
  have hexecute (files : Snapshot) : execute files staff arguments = validate files staff r := by
    rw [execute, hparse]
    rfl
  simp only [hexecute]
  have hcomes := r.comes files staff
  refine ⟨hcomes.exitStatus_eq_zero_iff, hcomes.exitStatus_eq_broken_iff, ?_, ?_, ?_, ?_⟩
  · intro hbroken
    exact congrArg Outcome.stdout (hcomes.eq_broken hbroken)
  · exact fun hzero hbroken => hcomes.exitStatus_eq_one hzero hbroken
  · intro h
    have hnone : ¬((∃ options, r.Settled files options) ∧ r.plan.Manned staff) := by
      rintro ⟨hsettled, hmanned⟩
      exact h.elim (fun h => h hsettled) fun h => h hmanned
    exact ⟨hcomes.stdout_of_none hnone, fun files' hfiles => validate_congr hnone hfiles⟩
  · intro hsettled hmanned htext
    exact hcomes.summary ⟨hsettled, hmanned⟩ htext

/-- Arguments that are texts. -/
def texts (words : List String) : List RawText :=
  words.map .ofString

/-- Options that leave no level. -/
def flatOptions : List UInt8 :=
  Utf8.bytes "\x7b\"max_depth\":0\x7d"

theorem ofBytes_flatOptions : Options.ofBytes flatOptions = .ok ⟨Vocabulary.version, 0⟩ := by
  have hsome : (Options.ofBytes flatOptions).toOption = some ⟨Vocabulary.version, 0⟩ := by
    decide +kernel
  cases hread : Options.ofBytes flatOptions with
  | ok options =>
    rw [hread] at hsome
    exact congrArg _ (Option.some.inj hsome)
  | error fault =>
    rw [hread] at hsome
    cases hsome

/-- A snapshot with a chapter in order, options that leave no level, and nothing else. -/
def listingFiles : Snapshot := fun path =>
  match path.text? with
  | some "a.json" => .content (Utf8.bytes
    ("\x7b\"anchor\":0,\"blocks\":[\x7b\"content\":0,\"type\":\"code\"\x7d],"
      ++ "\"chapterId\":0,\"order\":0,\"title\":0\x7d"))
  | some "flat" => .content flatOptions
  | _ => .refused .notFound

/-- The arguments for a request, and the status that it ends with. -/
def Ends (staff : Staff) (arguments : List RawText) (r : Request) (status : Nat) : Prop :=
  Invocation.parse arguments = some ⟨.validate r, 0⟩
    ∧ (execute listingFiles staff arguments).exitStatus = status

/-- The chapter passes, alone and with a limit of its own in place of that of the options, as text
and as a document. A path that leads nowhere, options that leave no level, and workers that are none
or too many each end with one. -/
theorem exitStatus_validate_listing :
    Ends anyStaff (texts ["validate", "--in", "a.json"]) { paths := texts ["a.json"] } 0
    ∧ Ends anyStaff
      (texts ["validate", "--format=json", "--opts", "flat", "--max-depth=1", "--in", "a.json"])
      { paths := texts ["a.json"], format := some .json,
        optionsPath := some (.ofString "flat"), maxDepth := some 1 } 0
    ∧ Ends anyStaff (texts ["validate", "--in", "a.json", "b.json"])
      { paths := texts ["a.json", "b.json"] } 1
    ∧ Ends anyStaff (texts ["validate", "--opts", "flat", "--in", "a.json"])
      { paths := texts ["a.json"], optionsPath := some (.ofString "flat") } 1
    ∧ Ends anyStaff (texts ["validate", "--parallel", "--threads", "0", "--in", "a.json"])
      { paths := texts ["a.json"], parallel := true, threads := some 0 } 1
    ∧ Ends (staffOf 2) (texts ["validate", "--parallel", "--threads", "3", "--in", "a.json"])
      { paths := texts ["a.json"], parallel := true, threads := some 3 } 1 := by
  have hshows : ∃ c ∈ Vocabulary.version.toList, Text.isWhiteSpace c = false :=
    ⟨'1', by decide, by decide⟩
  have hnothing : listingFiles (.ofString "b.json") = .refused .notFound := by decide +kernel
  have hflat : listingFiles (.ofString "flat") = .content flatOptions := by decide +kernel
  -- A text that does not pass, or for which there are no workers, ends with one.
  have hone {arguments : List RawText} {r : Request} {staff : Staff}
      (hparse : Invocation.parse arguments = some ⟨.validate r, 0⟩) (htext : r.format = none)
      (h : ¬((∃ options, r.Settled listingFiles options
        ∧ ∀ path ∈ r.paths, Passes listingFiles options path) ∧ r.plan.Manned staff)) :
      Ends staff arguments r 1 := by
    have hstatus := exitStatus_validate hparse listingFiles staff
    refine ⟨hparse, hstatus.2.2.2.1 (fun hzero => ?_) fun hbroken => ?_⟩
    · obtain ⟨hall, hmanned, -⟩ := hstatus.1.mp hzero
      exact h ⟨hall, hmanned⟩
    · refine (hstatus.2.1.mp hbroken).2.2 (Request.printable_of_text ?_)
      rw [htext]
      rfl
  refine ⟨?_, ?_, ?_, ?_, ?_, ?_⟩
  · have hparse : Invocation.parse (texts ["validate", "--in", "a.json"])
        = some ⟨.validate { paths := texts ["a.json"] }, 0⟩ := by decide +kernel
    have hpassed : (Batch.check listingFiles .standard (.ofString "a.json")).passed = true := by
      decide +kernel
    refine ⟨hparse, (exitStatus_validate hparse listingFiles anyStaff).1.mpr ⟨⟨.standard, ?_, ?_⟩,
      nofun, nofun⟩⟩
    · exact ⟨⟨.standard, rfl, rfl⟩, by decide, hshows, by decide⟩
    · exact List.forall_mem_singleton.mpr (passed_check_iff.mp hpassed)
  · let r : Request :=
      { paths := texts ["a.json"], format := some .json,
        optionsPath := some (.ofString "flat"), maxDepth := some 1 }
    have hparse : Invocation.parse (texts
        ["validate", "--format=json", "--opts", "flat", "--max-depth=1", "--in", "a.json"])
        = some ⟨.validate r, 0⟩ := by decide +kernel
    let validator : Validator := .withDepth 1 (by decide)
    have hpassed : (Batch.check listingFiles validator (.ofString "a.json")).passed = true := by
      decide +kernel
    refine ⟨hparse, (exitStatus_validate hparse listingFiles anyStaff).1.mpr
      ⟨⟨validator.options, ?_, ?_⟩, nofun, fun _ => ?_⟩⟩
    · exact ⟨⟨_, ⟨flatOptions, hflat, ofBytes_flatOptions⟩, rfl⟩, by decide, hshows, by decide⟩
    · exact List.forall_mem_singleton.mpr (passed_check_iff.mp hpassed)
    · exact List.forall_mem_singleton.mpr (by rw [RawText.text?_ofString]; rfl)
  · refine hone (by decide +kernel) rfl ?_
    rintro ⟨⟨options, -, hall⟩, -⟩
    obtain ⟨bytes, chapter, hfile, -⟩ := hall (.ofString "b.json") (by decide +kernel)
    cases hnothing.symm.trans hfile
  · refine hone (by decide +kernel) rfl ?_
    rintro ⟨⟨options, ⟨⟨base, ⟨bytes, hfile, hread⟩, rfl⟩, hreaches, -, -⟩, -⟩, -⟩
    obtain rfl := Opened.content.inj (hflat.symm.trans hfile)
    rw [ofBytes_flatOptions] at hread
    obtain rfl := Except.ok.inj hread
    exact absurd hreaches (by decide)
  · refine hone (by decide +kernel) rfl ?_
    rintro ⟨⟨options, hsettled, -⟩, -⟩
    exact hsettled.staffed ⟨rfl, rfl⟩
  · refine hone (by decide +kernel) rfl ?_
    rintro ⟨-, hmanned⟩
    cases hmanned rfl

/-- A path that is no text. -/
def namelessPath : RawText :=
  ⟨[0xFF, 0x2E, 0x6A, 0x73, 0x6F, 0x6E]⟩

/-- **`exists_broken`** -- settings that make sense, and a path that does not pass. In text the
status is one; where a document is asked for, it is not, and nothing is printed. -/
theorem exists_broken :
    Request.Settled listingFiles { paths := [namelessPath], format := some .json } .standard
    ∧ ¬Passes listingFiles .standard namelessPath
    ∧ Ends anyStaff (texts ["validate", "--format", "text", "--in"] ++ [namelessPath])
      { paths := [namelessPath], format := some .text } 1
    ∧ Ends anyStaff (texts ["validate", "--format", "json", "--in"] ++ [namelessPath])
      { paths := [namelessPath], format := some .json } 101
    ∧ (execute listingFiles anyStaff
      (texts ["validate", "--format", "json", "--in"] ++ [namelessPath])).stdout = "" := by
  refine ⟨?_, ?_, ?_, ?_, ?_⟩
  · exact ⟨⟨.standard, rfl, rfl⟩, by decide, ⟨'1', by decide, by decide⟩, by decide⟩
  · rintro ⟨bytes, chapter, hfile, -⟩
    have hnothing : listingFiles namelessPath = .refused .notFound := by decide +kernel
    cases hnothing.symm.trans hfile
  · exact ⟨by decide +kernel, by decide +kernel⟩
  · exact ⟨by decide +kernel, by decide +kernel⟩
  · decide +kernel

end CommandLine

end ChapterCheck
