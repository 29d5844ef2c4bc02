/-
# ChapterCheck.Report -- the outcome for one chapter

A report says which version a chapter was held to and lists its defects in the order of the
document. A chapter is in order when the list is empty.
-/
import ChapterCheck.Diagnostic

namespace ChapterCheck

open Json

/-- A **`Report`** -- the version and the defects. -/
structure Report where
  schemaVersion : String
  errors : List Diagnostic
  deriving DecidableEq, Repr

/-- A diagnostic as a document. -/
def Diagnostic.json (d : Diagnostic) : Value :=
  .object
    [("kind", .string (Tagged.tag d.kind)), ("message", .string d.message),
     ("path", .string d.path.render)]

namespace Report

/-- No defects. -/
def ok (r : Report) : Bool :=
  r.errors.isEmpty

/-- The messages, in order. -/
def messages (r : Report) : List String :=
  r.errors.map (·.message)

/-- **`text`** -- the messages, each on a line of its own. -/
def text (r : Report) : String :=
  "\n".intercalate r.messages

/-- Verdict and messages, as they are handed on together. -/
def parts (r : Report) : Bool × List String :=
  (r.ok, r.messages)

/-- **`json`** -- a report as a document. -/
def json (r : Report) : Value :=
  .object
    [("schema_version", .string r.schemaVersion), ("errors", .array (r.errors.map Diagnostic.json))]

theorem ok_iff {r : Report} : r.ok = true ↔ r.errors = [] :=
  List.isEmpty_iff

@[simp] theorem length_messages (r : Report) : r.messages.length = r.errors.length :=
  List.length_map _

end Report

end ChapterCheck
