/-
# ChapterCheck.Text.Raw -- texts as the system hands them over

To the system the names of files and the arguments of a program are bytes. They ought to be texts in
UTF-8, and need not be. A `RawText` is what was handed over. `text?` is the text that it is, if it
is one; `shown` is what is printed of it in any case.
-/
import ChapterCheck.Text.Utf8

namespace ChapterCheck

/-- A **`RawText`** -- bytes that ought to be a text. -/
structure RawText where
  bytes : List UInt8
  deriving DecidableEq, Repr

namespace RawText

/-- A text as it is handed over. -/
def ofString (text : String) : RawText :=
  ⟨Utf8.bytes text⟩

/-- **`text?`** -- the text that the bytes are, if they are one. -/
def text? (raw : RawText) : Option String :=
  match Utf8.decode raw.bytes with
  | .ok cs => some (String.ofList cs)
  | .error _ => none

/-- **`shown`** -- the text that is printed for the bytes; what is no character is replaced. -/
def shown (raw : RawText) : String :=
  String.ofList (Utf8.lossy raw.bytes)

@[simp] theorem text?_ofString (text : String) : (ofString text).text? = some text := by
  rw [text?, ofString, Utf8.bytes, Utf8.decode_encode]
  exact congrArg some String.ofList_toList

/-- What is a text is printed as it is. -/
theorem shown_of_text? {raw : RawText} {text : String} (h : raw.text? = some text) :
    raw.shown = text := by
  unfold text? at h
  split at h
  · rename_i cs hcs
    rw [shown, Utf8.lossy_of_decode hcs]
    exact Option.some.inj h
  · cases h

@[simp] theorem shown_ofString (text : String) : (ofString text).shown = text :=
  shown_of_text? (text?_ofString text)

end RawText

end ChapterCheck
