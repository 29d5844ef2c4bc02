/-
# ChapterCheck.Chapter -- chapters and their diagnostics

A chapter is an object with five header fields, the last of which holds its blocks. The walk looks
at every block in the order of the document and turns findings into diagnostics. It goes down block
by block with a count of the levels that are left (`room`): a block for which no level is left is
told as too deep and not looked at. Recursion is on that count alone, which is why a walk ends on
any document.

Top-level blocks are on level one. Paths to blocks begin at the field `blocks` of the chapter; paths
to the header, at the name `chapter`.
-/
import ChapterCheck.Block

namespace ChapterCheck

open Json Survey

/-! ## The walk -/

/-- **`Finding.diagnose`** -- the diagnostics of a finding at a node with the path `base`. A block
is looked at in turn if there is room for its level, with one level less for what it holds. -/
def Finding.diagnose (limit : Nat) : (room : Nat) → (base : Path) → Finding → List Diagnostic
  | _, base, .defect place what => [what.diagnostic (base ++ place)]
  | 0, base, .block place _ => [(Defect.tooDeep limit).diagnostic (base ++ place)]
  | room + 1, base, .block place v =>
    (Block.survey v).flatMap (Finding.diagnose limit room (base ++ place))

/-- **`Survey.diagnose`** -- the diagnostics of all findings of a survey. -/
def Survey.diagnose (limit room : Nat) (base : Path) (survey : Survey) : List Diagnostic :=
  survey.flatMap (Finding.diagnose limit room base)

/-- A defect is told as it is, however much room is left. -/
@[simp] theorem Finding.diagnose_defect (limit room : Nat) (base place : Path) (what : Defect) :
    Finding.diagnose limit room base (.defect place what) = [what.diagnostic (base ++ place)] := by
  cases room <;> rfl

@[simp] theorem Finding.diagnose_block_zero (limit : Nat) (base place : Path) (v : Value) :
    Finding.diagnose limit 0 base (.block place v)
      = [(Defect.tooDeep limit).diagnostic (base ++ place)] :=
  rfl

theorem Finding.diagnose_block_succ (limit room : Nat) (base place : Path) (v : Value) :
    Finding.diagnose limit (room + 1) base (.block place v)
      = (Block.survey v).diagnose limit room (base ++ place) :=
  rfl

/-- Where a finding stands is all that matters of the way to it. -/
theorem Finding.diagnose_under (limit room : Nat) (base inner : Path) (f : Finding) :
    (f.under inner).diagnose limit room base = f.diagnose limit room (base ++ inner) := by
  cases f with
  | defect place what => simp [Finding.under, List.append_assoc]
  | block place v =>
    cases room <;> simp [Finding.under, Finding.diagnose, List.append_assoc]

theorem Survey.diagnose_append (limit room : Nat) (base : Path) (s t : Survey) :
    Survey.diagnose limit room base (s ++ t)
      = Survey.diagnose limit room base s ++ Survey.diagnose limit room base t :=
  List.flatMap_append

theorem Survey.diagnose_under (limit room : Nat) (base inner : Path) (s : Survey) :
    Survey.diagnose limit room base (Survey.under inner s)
      = Survey.diagnose limit room (base ++ inner) s := by
  simp [Survey.diagnose, Survey.under, List.flatMap_map, Finding.diagnose_under]

/-! ## Chapters -/

namespace Chapter

/-- The fields that a chapter has to have, in the order in which they are missed. -/
def header : List String :=
  ["chapterId", "title", "anchor", "order", "blocks"]

/-- The header fields that are absent. -/
def headerSurvey (chapter : Members) : Survey :=
  header.flatMap fun key =>
    if chapter.has key then [] else atField key .headerAbsent

/-- The blocks of a chapter, which has to have some. -/
def blocksSurvey (chapter : Members) : Survey :=
  match chapter.get? "blocks" with
  | some (.array (first :: rest)) => under [.field "blocks"] (each Survey.block (first :: rest))
  | _ => under [.field "chapter"] (atField "blocks" (.shape .filledArray))

/-- **`survey`** -- what a look at a value in the place of a chapter finds. -/
def survey (v : Value) : Survey :=
  match v with
  | .object chapter => under [.field "chapter"] (headerSurvey chapter) ++ blocksSurvey chapter
  | _ => under [.field "chapter"] (here (.shape .object))

/-- **`diagnostics`** -- every defect of a chapter, in the order of the document, where blocks may
be nested `limit` deep. -/
def diagnostics (limit : Nat) (v : Value) : List Diagnostic :=
  (survey v).diagnose limit limit []

/-! ## What a chapter says of itself -/

/-- The identifier of a chapter, if it is a string. -/
def id? (v : Value) : Option String :=
  (v.field? "chapterId").bind Value.asString?

/-- The title of a chapter, if it is a string. -/
def title? (v : Value) : Option String :=
  (v.field? "title").bind Value.asString?

/-! ## Reading -/

/-- What is in front of the message where a chapter could not be read. -/
def unreadable (message : String) : String :=
  "parse chapter JSON: " ++ message

end Chapter

end ChapterCheck
