/-
# ChapterCheck.Failure -- what can go wrong besides a chapter

Defects of a chapter stand in its report. A `Failure` is everything else that ends an undertaking: a
text that is no document, a setting that makes no sense, a file that cannot be opened, and, where a
caller asks for it, a chapter that is not in order.

`Failure.message` is the line that is shown; `Failure.cause?` is what lies behind it, if that is
told apart from it.
-/

namespace ChapterCheck

/-- Why a file could not be used. -/
inductive FileFault where
  /-- It is not there; nothing else is known. -/
  | notFound
  /-- What is told about it. -/
  | told (text : String)
  deriving DecidableEq, Repr

/-- The words for a fault of a file. -/
def FileFault.text : FileFault → String
  | .notFound => "entity not found"
  | .told text => text

/-- A setting that makes no sense, or cannot be met. -/
inductive Misconfiguration where
  /-- No block at all would be in reach. -/
  | noDepth
  /-- Reports would not say what a chapter was held to. -/
  | noVersion
  /-- Nobody would do the work. -/
  | noThreads
  /-- Nobody could be had for the work, for a reason that the system tells. -/
  | noWorkers (why : String)
  deriving DecidableEq, Repr

/-- The words for such a setting. -/
def Misconfiguration.text : Misconfiguration → String
  | .noDepth => "validator 'max_depth' must be >= 1"
  | .noVersion => "validator 'schema_version' must be non-empty"
  | .noThreads => "batch 'threads' must be >= 1 when set"
  | .noWorkers why => "failed to build rayon thread pool: " ++ why

/-- A **`Failure`** -- the end of an undertaking. -/
inductive Failure where
  /-- A chapter is not in order. -/
  | validation (detail : String)
  /-- A text is no document, or not the document that was asked for. -/
  | serialization (detail : String)
  /-- A setting makes no sense. -/
  | config (detail : String)
  /-- A file cannot be used. -/
  | io (fault : FileFault)
  /-- Something from elsewhere, told by those who passed it on, the last of them first. -/
  | other (outermost : String) (inner : List String)
  deriving DecidableEq, Repr

namespace Failure

/-- A failure for a setting that makes no sense. -/
def ofMisconfiguration (m : Misconfiguration) : Failure :=
  .config m.text

/-- Something from elsewhere, passed on with `contexts`, each put in front of what was there. -/
def inContexts (message : String) (contexts : List String) : Failure :=
  let (outermost, inner) :=
    contexts.foldl (fun (outer, inner) context => (context, outer :: inner)) (message, [])
  .other outermost inner

/-- **`message`** -- the line that is shown for a failure. -/
def message : Failure → String
  | .validation detail => "validation error: " ++ detail
  | .serialization detail => "serialization error: " ++ detail
  | .config detail => "config error: " ++ detail
  | .io fault => "io error: " ++ fault.text
  | .other outermost _ => outermost

/-- **`cause?`** -- what lies behind a failure. -/
def cause? : Failure → Option String
  | .io fault => some fault.text
  | .other _ inner => inner.head?
  | _ => none

end Failure

end ChapterCheck
