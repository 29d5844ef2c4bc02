/-
# ChapterCheck.Event -- what is put on record along the way

Validation leaves a record beside its report. The walk through a chapter leaves `Note`s on its way:
diagnostics for the report, and for the record an event wherever it comes upon a block that lies too
deep. When it is through, a last event says that the chapter is done. So report and record come out
of one walk apart from each other, and can be held against each other.
-/
import ChapterCheck.Text.Raw
import ChapterCheck.Validator

namespace ChapterCheck

open Json

/-- How much an event matters. -/
inductive Level where
  | warn
  | info
  | debug
  deriving DecidableEq, Repr

instance : Tagged Level where
  all := [.warn, .info, .debug]
  tag
    | .warn => "WARN"
    | .info => "INFO"
    | .debug => "DEBUG"
  complete a := by cases a <;> decide
  distinct a b := by cases a <;> cases b <;> decide

/-- An **`Event`** -- something that is put on record. -/
inductive Event where
  /-- A block lies too deep. -/
  | nestedTooDeep (place : Path) (limit : Nat)
  /-- A chapter is done. -/
  | chapterValidated (id : Option String) (errors : Nat)
  /-- A number of threads was given where no threads are used. -/
  | threadsIgnored
  /-- A file could not be read as a chapter. -/
  | loadFailed (path : RawText) (failure : Failure)
  /-- A batch is done. -/
  | batchValidated (passed failed unreadable : Nat)
  deriving DecidableEq, Repr

namespace Event

/-- How much an event matters. -/
def level : Event → Level
  | .nestedTooDeep .. => .warn
  | .chapterValidated .. => .debug
  | .threadsIgnored => .debug
  | .loadFailed .. => .warn
  | .batchValidated .. => .info

/-- What an event says, the same for all of its kind. -/
def message : Event → String
  | .nestedTooDeep .. => "block nesting too deep"
  | .chapterValidated .. => "chapter validated"
  | .threadsIgnored => "'threads' ignored without parallel mode"
  | .loadFailed .. => "chapter load failed"
  | .batchValidated .. => "batch validated"

/-- A count as a document. -/
def count (n : Nat) : Value :=
  .number (.integer n)

/-- **`fields`** -- what an event says of this one case. -/
def fields : Event → Members
  | .nestedTooDeep place limit => [("path", .string place.render), ("max_depth", count limit)]
  | .chapterValidated id errors =>
    (id.map fun s => ("chapter_id", .string s)).toList ++ [("errors", count errors)]
  | .threadsIgnored => []
  | .loadFailed path failure => [("path", .string path.shown), ("error", .string failure.message)]
  | .batchValidated passed failed unreadable =>
    [("passed", count passed), ("failed", count failed), ("unreadable", count unreadable)]

/-- **`json`** -- an event as a document. -/
def json (e : Event) : Value :=
  .object (("level", .string (Tagged.tag e.level)) :: ("message", .string e.message) :: e.fields)

/-- **`text`** -- an event on one line. -/
def text (e : Event) : String :=
  Tagged.tag e.level ++ " " ++ e.message
    ++ String.join (e.fields.map fun (key, v) => " " ++ key ++ "=" ++ v.compact)

/-- Warnings are always shown; more is shown the more often it is asked for. -/
def shows (e : Event) (verbosity : Nat) : Bool :=
  match e.level with
  | .warn => true
  | .info => 1 ≤ verbosity
  | .debug => 2 ≤ verbosity

end Event

/-! ## The record of a walk -/

/-- A **`Note`** -- what a walk leaves on its way. -/
inductive Note where
  /-- A diagnostic, for the report. -/
  | told (d : Diagnostic)
  /-- An event, for the record. -/
  | recorded (e : Event)

/-- The diagnostic that a note is. -/
def Note.diagnostic? : Note → Option Diagnostic
  | .told d => some d
  | .recorded _ => none

/-- The event that a note is. -/
def Note.event? : Note → Option Event
  | .told _ => none
  | .recorded e => some e

/-- **`Finding.notes`** -- the notes on a finding at a node with the path `base`. The walk goes as
it does for `Finding.diagnose`; a block for which there is no room is put on record and then
told. -/
def Finding.notes (limit : Nat) : (room : Nat) → (base : Path) → Finding → List Note
  | _, base, .defect place what => [.told (what.diagnostic (base ++ place))]
  | 0, base, .block place _ =>
    [.recorded (.nestedTooDeep (base ++ place) limit),
      .told ((Defect.tooDeep limit).diagnostic (base ++ place))]
  | room + 1, base, .block place v =>
    (Block.survey v).flatMap (Finding.notes limit room (base ++ place))

/-- **`Chapter.notes`** -- the notes of the walk through a chapter, where blocks may be nested
`limit` deep. -/
def Chapter.notes (limit : Nat) (v : Value) : List Note :=
  (survey v).flatMap (Finding.notes limit limit [])

/-- **`Validator.events`** -- the record of a validation. -/
def Validator.events (validator : Validator) (chapter : Value) : List Event :=
  (Chapter.notes validator.limit chapter).filterMap Note.event?
    ++ [.chapterValidated (Chapter.id? chapter) (validator.report chapter).errors.length]

end ChapterCheck
