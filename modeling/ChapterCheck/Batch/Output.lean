/-
# ChapterCheck.Batch.Output -- batches as text and as documents

Two accounts of the same batch. `Batch.text` has a line for each file, with the messages of its
defects indented below; `Batch.json?` is an array with an object for each file. `Batch.summary`
counts.

A line shows any path. An object holds a path only if it is a text, so there is no array where one
of the paths is none.
-/
import ChapterCheck.Batch

namespace ChapterCheck

open Json

/-- A line of text. -/
def line (s : String) : String :=
  s ++ "\n"

namespace Entry

/-- **`text`** -- the lines of a file. -/
def text (e : Entry) : String :=
  match e.outcome with
  | .checked report =>
    if report.ok then line ("ok    " ++ e.path.shown)
    else
      line ("FAIL  " ++ e.path.shown ++ " (" ++ Nat.repr report.errors.length ++ " errors)")
        ++ String.join (report.messages.map fun message => line ("      " ++ message))
  | .unreadable failure => line ("ERROR " ++ e.path.shown ++ ": " ++ failure.message)

/-- A file whose path is a text as a document, its members in order of their keys. -/
def json (e : Entry) (path : String) : Value :=
  match e.outcome with
  | .checked report =>
    .object
      [("chapterId", (e.chapterId.map Value.string).getD .null),
       ("errors", .array (report.errors.map Diagnostic.json)),
       ("ok", .bool report.ok),
       ("path", .string path),
       ("schemaVersion", .string report.schemaVersion)]
  | .unreadable failure =>
    .object
      [("loadError", .string failure.message), ("ok", .bool false), ("path", .string path)]

/-- **`json?`** -- a file as a document, if its path is a text. -/
def json? (e : Entry) : Option Value :=
  e.path.text?.map fun path => e.json path

end Entry

namespace Batch

/-- The lines of all files. -/
def text (b : Batch) : String :=
  String.join (b.entries.map Entry.text)

/-- All files as a document, if every path is a text. -/
def json? (b : Batch) : Option Value :=
  (b.entries.mapM Entry.json?).map Value.array

/-- How many files came out in which way. -/
def summary (b : Batch) : String :=
  Nat.repr b.passed ++ " passed, " ++ Nat.repr b.failed ++ " failed, "
    ++ Nat.repr b.unreadable ++ " unreadable"

end Batch

end ChapterCheck
