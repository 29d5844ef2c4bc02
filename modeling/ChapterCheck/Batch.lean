/-
# ChapterCheck.Batch -- many files at once

A batch is a list of paths, each of which is loaded and validated for itself. A file that cannot be
loaded is an entry of the batch like any other; only a plan that makes no sense, or one for which
there are no workers, ends it.

In parallel, workers take paths in any order and put what they find into the slot of the path. A
`schedule` is the order in which the slots are filled, so what it must not change can be said: the
entries. Whether workers can be had is up to the system, so it is given, as a `Staff`.
-/
import ChapterCheck.Event
import ChapterCheck.Files

namespace ChapterCheck

open Json

/-- What came of a file. -/
inductive FileOutcome where
  /-- It was loaded and validated; the report may list defects. -/
  | checked (report : Report)
  /-- It could not be loaded. -/
  | unreadable (failure : Failure)
  deriving DecidableEq, Repr

/-- An **`Entry`** of a batch: the path as it was given, the identifier of the chapter, and what
came of it. -/
structure Entry where
  path : RawText
  chapterId : Option String
  outcome : FileOutcome
  deriving DecidableEq, Repr

/-- How a batch is to be done. -/
structure Plan where
  parallel : Bool := false
  threads : Option Nat := none
  deriving DecidableEq, Repr

/-- A **`Staff`** -- whether workers can be had, so many of them or as many as the system sees fit.
Where they cannot, the system says why. -/
abbrev Staff := (threads : Option Nat) → Except String Unit

/-- Any workers can be had. -/
def anyStaff : Staff := fun _ => .ok ()

/-- A **`Batch`** that is done: one entry for each path, in the order of the paths. -/
structure Batch where
  entries : List Entry
  deriving DecidableEq, Repr

/-! ## Counting -/

namespace Entry

/-- Loaded, and in order. -/
def passed (e : Entry) : Bool :=
  match e.outcome with
  | .checked report => report.ok
  | .unreadable _ => false

/-- Loaded, and not in order. -/
def failed (e : Entry) : Bool :=
  match e.outcome with
  | .checked report => !report.ok
  | .unreadable _ => false

/-- Not loaded. -/
def unreadable (e : Entry) : Bool :=
  match e.outcome with
  | .checked _ => false
  | .unreadable _ => true

/-- An entry counts in exactly one way. -/
theorem passed_failed_unreadable (e : Entry) :
    (e.passed.toNat + e.failed.toNat + e.unreadable.toNat) = 1 := by
  unfold passed failed unreadable
  cases e.outcome with
  | checked report => cases h : report.ok <;> simp [h]
  | unreadable failure => rfl

end Entry

namespace Batch

/-- Every file is loaded and in order. -/
def allOk (b : Batch) : Bool :=
  b.entries.all Entry.passed

/-- How many files are in order. -/
def passed (b : Batch) : Nat :=
  b.entries.countP Entry.passed

/-- How many files are not in order. -/
def failed (b : Batch) : Nat :=
  b.entries.countP Entry.failed

/-- How many files could not be loaded. -/
def unreadable (b : Batch) : Nat :=
  b.entries.countP Entry.unreadable

/-- The three counts add up, since an entry counts in exactly one way. -/
theorem passed_add_failed_add_unreadable (b : Batch) :
    b.passed + b.failed + b.unreadable = b.entries.length := by
  obtain ⟨entries⟩ := b
  simp only [passed, failed, unreadable]
  induction entries with
  | nil => rfl
  | cons e entries ih =>
    have hone := e.passed_failed_unreadable
    have hcount (b : Bool) : (if b = true then 1 else 0) = b.toNat := by cases b <;> rfl
    simp only [List.countP_cons, List.length_cons, hcount]
    omega

/-- A batch has passed exactly when no file is counted as anything else. -/
theorem allOk_iff_counts (b : Batch) :
    b.allOk = true ↔ b.failed = 0 ∧ b.unreadable = 0 := by
  have hsum := b.passed_add_failed_add_unreadable
  have hall : b.allOk = true ↔ b.passed = b.entries.length := by
    rw [allOk, passed, List.countP_eq_length, List.all_eq_true]
  rw [hall]
  omega

/-! ## Doing a batch -/

/-- **`check`** -- what comes of one path. -/
def check (files : Snapshot) (validator : Validator) (path : RawText) : Entry :=
  match Chapter.load files path with
  | .ok chapter => ⟨path, Chapter.id? chapter, .checked (validator.report chapter)⟩
  | .error failure => ⟨path, none, .unreadable failure⟩

/-- **`inSlots`** -- the slots of `items` when the items have been worked on in the order in which
`schedule` gives their places. -/
def inSlots {α β : Type} (work : α → β) (items : List α) (schedule : List Nat) : List (Option β) :=
  schedule.foldl
    (fun slots place =>
      match items[place]? with
      | some item => slots.set place (some (work item))
      | none => slots)
    (List.replicate items.length none)

/-- **`done`** -- the batch of `paths` by a plan. Only a parallel plan needs workers and looks at
the number of threads and at the schedule. -/
def done (files : Snapshot) (staff : Staff) (validator : Validator) (plan : Plan)
    (schedule : List Nat) (paths : List RawText) : Except Misconfiguration Batch :=
  if plan.parallel then
    if plan.threads = some 0 then .error .noThreads
    else
      match staff plan.threads with
      | .error why => .error (.noWorkers why)
      | .ok () => .ok ⟨(inSlots (check files validator) paths schedule).filterMap id⟩
  else .ok ⟨paths.map (check files validator)⟩

/-- The order of the paths, as a schedule. -/
def inOrder (paths : List RawText) : List Nat :=
  List.range paths.length

/-! ## The record of a batch -/

/-- The record of one path. -/
def checkEvents (files : Snapshot) (validator : Validator) (path : RawText) : List Event :=
  match Chapter.load files path with
  | .ok chapter => validator.events chapter
  | .error failure => [.loadFailed path failure]

/-- **`events`** -- the record of a batch on the thread that asked for it; in parallel, the files
are on the records of the workers. -/
def events (files : Snapshot) (validator : Validator) (plan : Plan) (paths : List RawText)
    (batch : Batch) : List Event :=
  (if plan.parallel then []
    else (if plan.threads.isSome then [.threadsIgnored] else [])
      ++ paths.flatMap (checkEvents files validator))
    ++ [.batchValidated batch.passed batch.failed batch.unreadable]

end Batch

end ChapterCheck
