/-
# ChapterCheck.Files -- files as they are found

What the rest of the library knows of files is a `Snapshot`: what comes of opening each path at one
moment. A path is what the system takes for one, be it a text or not. Opening can be refused;
reading can break off, as it does at once with a directory; anything else has bytes.

`Chapter.load` reads the chapter that a path leads to.
-/
import ChapterCheck.Chapter
import ChapterCheck.Failure
import ChapterCheck.Json.Reader
import ChapterCheck.Text.Raw

namespace ChapterCheck

open Json

/-- Why a path could not be opened. -/
inductive OpenFault where
  | notFound
  /-- Something on the way is no directory. -/
  | notDirectory
  /-- The path or a name in it is longer than the system admits. -/
  | nameTooLong
  /-- A zero byte, which ends a path for the system, stands in the path. -/
  | zeroByte
  /-- Anything else, in the words of the system. -/
  | other (text : String)
  deriving DecidableEq, Repr

/-- The words of the system for it. -/
def OpenFault.text : OpenFault → String
  | .notFound => "No such file or directory (os error 2)"
  | .notDirectory => "Not a directory (os error 20)"
  | .nameTooLong => "File name too long (os error 36)"
  | .zeroByte => "file name contained an unexpected NUL byte"
  | .other text => text

/-- What comes of opening a path and reading what it leads to. -/
inductive Opened where
  | refused (why : OpenFault)
  /-- It can be opened, but the system breaks off the reading, in these words. -/
  | broken (words : String)
  | content (bytes : List UInt8)
  deriving DecidableEq, Repr

/-- A directory can be opened, and nothing can be read. -/
def Opened.directory : Opened := .broken "Is a directory (os error 21)"

/-- A **`Snapshot`** -- what every path leads to, at one moment. -/
abbrev Snapshot := RawText → Opened

namespace Chapter

/-- A chapter from bytes; places are counted as in a stream. -/
def ofBytes (bytes : List UInt8) : Except Failure Value :=
  match Value.ofBytes bytes with
  | .ok v => .ok v
  | .error fault => .error (.serialization (unreadable (fault.message .stream bytes)))

/-- A chapter from a text that is at hand as a whole. -/
def ofText (text : String) : Except Failure Value :=
  match Value.ofText text with
  | .ok v => .ok v
  | .error fault =>
    .error (.serialization (unreadable (fault.message .text (Utf8.bytes text))))

/-- **`load`** -- the chapter that a path leads to. -/
def load (files : Snapshot) (path : RawText) : Except Failure Value :=
  match files path with
  | .refused why => .error (.io (.told ("open chapter JSON '" ++ path.shown ++ "': " ++ why.text)))
  | .broken words => .error (.serialization (unreadable words))
  | .content bytes => ofBytes bytes

theorem ofBytes_eq_ok_iff {bytes : List UInt8} {v : Value} :
    ofBytes bytes = .ok v ↔ Value.ofBytes bytes = .ok v := by
  unfold ofBytes
  cases Value.ofBytes bytes <;> simp

theorem ofText_eq_ok_iff {text : String} {v : Value} :
    ofText text = .ok v ↔ Value.ofText text = .ok v := by
  unfold ofText
  cases Value.ofText text <;> simp

/-- A chapter is loaded exactly from a path with bytes that hold it. -/
theorem load_eq_ok_iff {files : Snapshot} {path : RawText} {v : Value} :
    load files path = .ok v ↔
      ∃ bytes, files path = .content bytes ∧ Value.ofBytes bytes = .ok v := by
  unfold load
  cases files path <;> simp [ofBytes_eq_ok_iff]

end Chapter

end ChapterCheck
