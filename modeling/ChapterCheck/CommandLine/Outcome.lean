/-
# ChapterCheck.CommandLine.Outcome -- what the program does

`run` takes a command, a snapshot of the files and what staff there is to what the program prints
and the status it ends with. A batch in which every file is in order ends with status zero, any
other with one. Settings are looked at before the first file is: when they cannot be used, the
reason goes to the error output, the status is one, and nothing else is printed.

A batch of which a document is asked for and cannot be made, since one of its paths is no text, is
neither: the program breaks off (`broken`).
-/
import ChapterCheck.Batch.Output
import ChapterCheck.CommandLine.Arguments
import ChapterCheck.Options.Reader

namespace ChapterCheck.CommandLine

open Json

/-- What the program leaves behind. -/
structure Outcome where
  exitStatus : Nat
  stdout : String := ""
  stderr : String := ""
  deriving DecidableEq, Repr

/-- Why a command could not be carried out: the reason, and the one behind it, if there is one. -/
structure Trouble where
  reason : String
  cause : Option String := none
  deriving DecidableEq, Repr

/-- How trouble is told. -/
def Trouble.text (t : Trouble) : String :=
  line ("Error: " ++ t.reason) ++
    match t.cause with
    | none => ""
    | some cause => "\nCaused by:\n" ++ line ("    " ++ cause)

/-- A failure as the reason for trouble. -/
def Trouble.ofFailure (failure : Failure) : Trouble :=
  ⟨failure.message, failure.cause?⟩

/-- Options that could not be read. -/
def Trouble.ofUnreadable (message : String) : Trouble :=
  .ofFailure (.serialization (Options.unreadable message))

/-- The options that a file holds. -/
def loadOptions (files : Snapshot) (path : RawText) : Except Trouble Options :=
  match files path with
  | .refused why => .error ⟨"open validator options '" ++ path.shown ++ "'", some why.text⟩
  | .broken words => .error (.ofUnreadable words)
  | .content bytes =>
    match Options.ofBytes bytes with
    | .ok options => .ok options
    | .error fault => .error (.ofUnreadable (fault.message .stream bytes))

/-- The options of a request: from its file or by default, and the limit as told. -/
def requestedOptions (files : Snapshot) (r : Request) : Except Trouble Options := do
  let options ← match r.optionsPath with
    | some path => loadOptions files path
    | none => .ok .standard
  match r.maxDepth with
  | some limit => .ok { options with maxDepth := limit }
  | none => .ok options

/-- A setting that makes no sense as the reason for trouble. -/
def sensible {α : Type} (result : Except Misconfiguration α) : Except Trouble α :=
  match result with
  | .ok a => .ok a
  | .error m => .error (.ofFailure (.ofMisconfiguration m))

theorem sensible_eq_ok_iff {α : Type} {result : Except Misconfiguration α} {a : α} :
    sensible result = .ok a ↔ result = .ok a := by
  cases result <;> simp [sensible]

/-- The validator of a request. -/
def requestedValidator (files : Snapshot) (r : Request) : Except Trouble Validator := do
  sensible (Validator.ofOptions (← requestedOptions files r))

/-- The plan of a request. -/
def Request.plan (r : Request) : Plan :=
  ⟨r.parallel, r.threads⟩

/-- **`Request.batch`** -- the batch of a request. -/
def Request.batch (files : Snapshot) (staff : Staff) (r : Request) : Except Trouble Batch := do
  let validator ← requestedValidator files r
  sensible (Batch.done files staff validator r.plan (Batch.inOrder r.paths) r.paths)

/-- The status that tells of a batch. -/
def verdict (batch : Batch) : Nat :=
  if batch.allOk then 0 else 1

/-- The program breaks off. What it says of itself then is left out. -/
def broken : Outcome :=
  { exitStatus := 101 }

/-- **`printed`** -- what is printed of a batch, in a format. -/
def printed (format : Format) (batch : Batch) : Outcome :=
  match format with
  | .text =>
    { exitStatus := verdict batch, stdout := batch.text, stderr := line batch.summary }
  | .json =>
    match batch.json? with
    | some document => { exitStatus := verdict batch, stdout := line document.pretty }
    | none => broken

/-- **`validate`** -- what comes of a request. -/
def validate (files : Snapshot) (staff : Staff) (r : Request) : Outcome :=
  match r.batch files staff with
  | .ok batch => printed (r.format.getD .text) batch
  | .error trouble => { exitStatus := 1, stderr := trouble.text }

/-- How the program is called. -/
def usage : String :=
  line "Usage: chapter-ir [OPTIONS] <COMMAND>"
    ++ line ""
    ++ line "Commands:"
    ++ line "  validate  Validate one or more chapter files"
    ++ line "  schema    Print the vocabulary as JSON"
    ++ line "  help      Print this message"

/-- **`run`** -- what comes of a command. -/
def run (files : Snapshot) (staff : Staff) : Command → Outcome
  | .help => { exitStatus := 0, stdout := usage }
  | .version => { exitStatus := 0, stdout := line "chapter-ir 0.1.0" }
  | .schema => { exitStatus := 0, stdout := line Vocabulary.json.pretty }
  | .validate request => validate files staff request

/-- **`execute`** -- what comes of the arguments of the program; status two where they ask for
nothing. -/
def execute (files : Snapshot) (staff : Staff) (arguments : List RawText) : Outcome :=
  match Invocation.parse arguments with
  | some invocation => run files staff invocation.command
  | none => { exitStatus := 2 }

/-- The record of a command, as far as one thread sees it. -/
def record (files : Snapshot) (staff : Staff) : Command → List Event
  | .validate r =>
    match requestedValidator files r, r.batch files staff with
    | .ok validator, .ok batch => Batch.events files validator r.plan r.paths batch
    | _, _ => []
  | _ => []

end ChapterCheck.CommandLine
