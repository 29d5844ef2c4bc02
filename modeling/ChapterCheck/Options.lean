/-
# ChapterCheck.Options -- the settings of a validator

Two settings: the version that reports are tagged with, and how deep blocks may be nested. The limit
is a word of 64 bits. As a document, options are an object with one field for each setting, in the
order of the structure.
-/
import ChapterCheck.Json.Printer
import ChapterCheck.Vocabulary

namespace ChapterCheck

open Json

/-- The **`Options`** of a validator, with their defaults. -/
structure Options where
  schemaVersion : String := Vocabulary.version
  maxDepth : UInt64 := 64
  deriving DecidableEq, Repr

namespace Options

/-- The settings that are used where nothing is said. -/
def standard : Options := {}

/-- The name of the field for the version. -/
def versionField : String := "schema_version"

/-- The name of the field for the limit. -/
def depthField : String := "max_depth"

/-- **`json`** -- options as a document. -/
def json (o : Options) : Value :=
  .object
    [(versionField, .string o.schemaVersion),
     (depthField, .number (.integer o.maxDepth.toNat))]

end Options

end ChapterCheck
