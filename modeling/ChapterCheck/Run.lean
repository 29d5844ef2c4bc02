/-
# ChapterCheck.Run -- runs of text and their marks

A run is an object with a `text` and, unless they are left out or `null`, `marks`: an array of
objects whose `type` is in the vocabulary.

Inside the quote of an engine a run is held to the same contract, and its marks besides to a smaller
set (`Run.restriction`). The restriction adds defects behind those of the contract and takes none
away; what the contract has already found to be no mark at all, it passes over.
-/
import ChapterCheck.Survey

namespace ChapterCheck.Run

open Json Survey

/-- The kind of mark that an object names as its `type`. -/
def markKind? (mark : Members) : Option MarkKind :=
  Tagged.ofValue? MarkKind (mark.get? "type")

/-- The contract of a mark. -/
def markSurvey (v : Value) : Survey :=
  object v fun mark =>
    match markKind? mark with
    | some _ => []
    | none => atField "type" (.unsupported (mark.get? "type"))

/-- The contract of the marks of a run. -/
def marksSurvey (run : Members) : Survey :=
  match run.get? "marks" with
  | none => []
  | some .null => []
  | some (.array marks) => under [.field "marks"] (each markSurvey marks)
  | some _ => atField "marks" (.shape .array)

/-- **`survey`** -- the contract of a run. -/
def survey (v : Value) : Survey :=
  object v fun run => require run "text" ++ marksSurvey run

/-! ## Restricted marks -/

/-- The marks that a quote of an engine may have. -/
def quotedMarks : List MarkKind := [.bold, .italic]

/-- A mark has to be among the allowed ones. -/
def markRestriction (allowed : List MarkKind) (v : Value) : Survey :=
  match v with
  | .object mark =>
    if (markKind? mark).any (· ∈ allowed) then [] else atField "type" (.markNotAllowed allowed)
  | _ => []

/-- **`restriction`** -- every mark of a run has to be among the allowed ones. -/
def restriction (allowed : List MarkKind) (v : Value) : Survey :=
  match v.field? "marks" with
  | some (.array marks) => under [.field "marks"] (each (markRestriction allowed) marks)
  | _ => []

/-- **`quotedSurvey`** -- a run in the quote of an engine: the contract, then the restriction. -/
def quotedSurvey (v : Value) : Survey :=
  survey v ++ restriction quotedMarks v

end ChapterCheck.Run
