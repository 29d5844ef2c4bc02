/-
# ChapterCheck.Diagnostic -- what can be wrong at a node, and how it is told

A `Defect` is a cause without a place. Together with a path it makes a `Diagnostic`: the kind of the
defect, the path, and a message. Every message names its place: the written path comes first and a
space sets it off, except for an absent header field, which is told the other way round
(`Defect.message`).
-/
import ChapterCheck.Json.Printer
import ChapterCheck.Vocabulary

namespace ChapterCheck

open Json

/-! ## Kinds -/

/-- The kinds of defects. -/
inductive DefectKind where
  /-- A required key is absent. -/
  | missingField
  /-- A node is not of the type that is asked for, or empty where it must not be. -/
  | wrongShape
  /-- A value lies outside the set that is allowed. -/
  | invalidValue
  /-- Two fields contradict each other. -/
  | inconsistent
  /-- The type of a block or a mark is not in the vocabulary. -/
  | unknownType
  /-- A block is nested deeper than the limit. -/
  | tooDeep
  deriving DecidableEq, Repr

instance : Tagged DefectKind where
  all := [.missingField, .wrongShape, .invalidValue, .inconsistent, .unknownType, .tooDeep]
  tag
    | .missingField => "missing_field"
    | .wrongShape => "wrong_shape"
    | .invalidValue => "invalid_value"
    | .inconsistent => "inconsistent"
    | .unknownType => "unknown_type"
    | .tooDeep => "too_deep"
  complete a := by cases a <;> decide
  distinct a b := by cases a <;> cases b <;> decide

/-- A **`Diagnostic`** -- one defect of a chapter, at its place. -/
structure Diagnostic where
  kind : DefectKind
  path : Path
  message : String
  deriving DecidableEq, Repr

/-! ## Defects -/

/-- What a node may have to be. -/
inductive Shape where
  | object
  | array
  | string
  | filledArray
  | filledArrayOfBlocks
  deriving DecidableEq, Repr

/-- The demand, in words. -/
def Shape.demand : Shape → String
  | .object => "must be an object"
  | .array => "must be an array"
  | .string => "must be a string"
  | .filledArray => "must be a non-empty array"
  | .filledArrayOfBlocks => "must be a non-empty array of blocks"

/-- A **`Defect`** -- what is wrong with a node, its place left out. -/
inductive Defect where
  /-- A header field of the chapter is absent. -/
  | headerAbsent
  /-- A field is absent. -/
  | absent
  /-- The node is not of a shape. -/
  | shape (demanded : Shape)
  /-- The node is no integer, or not even there. -/
  | notInteger (present : Bool)
  /-- The value is outside the allowed set. -/
  | invalid (value : Option Value)
  /-- The type is outside the vocabulary. -/
  | unsupported (value : Option Value)
  /-- The mark is not among the allowed ones. -/
  | markNotAllowed (allowed : List MarkKind)
  /-- The block is of another kind than the one that is allowed. -/
  | blockNotAllowed (allowed : BlockKind)
  /-- The title is not that of the engine. -/
  | titleMismatch (engine : Engine)
  /-- A key figure without its label or its value. -/
  | figureIncomplete
  /-- A widget without data, held or referred to. -/
  | dataAbsent
  /-- The block lies deeper than the limit. -/
  | tooDeep (limit : Nat)

/-- **`Defect.kind`** -- the kind of a defect. -/
def Defect.kind : Defect → DefectKind
  | .headerAbsent => .missingField
  | .absent => .missingField
  | .shape _ => .wrongShape
  | .notInteger present => if present then .wrongShape else .missingField
  | .invalid _ => .invalidValue
  | .unsupported _ => .unknownType
  | .markNotAllowed _ => .invalidValue
  | .blockNotAllowed _ => .invalidValue
  | .titleMismatch _ => .inconsistent
  | .figureIncomplete => .missingField
  | .dataAbsent => .missingField
  | .tooDeep _ => .tooDeep

/-! ## Messages -/

/-- **`shown`** -- a value inside a message: a string as it is, everything else as a compact
document; what is absent reads as `null`. -/
def shown : Option Value → String
  | none => "null"
  | some (.string s) => s
  | some v => v.compact

/-- What a message says of the node whose path it begins with. -/
def Defect.clause : Defect → String
  | .headerAbsent => "is missing"
  | .absent => "is missing"
  | .shape demanded => demanded.demand
  | .notInteger _ => "must be an integer"
  | .invalid value => "is invalid: " ++ shown value
  | .unsupported value => "is not supported: " ++ shown value
  | .markNotAllowed allowed =>
    "only " ++ "/".intercalate (allowed.map Tagged.tag) ++ " are allowed"
  | .blockNotAllowed allowed => "only " ++ Tagged.tag allowed ++ " is allowed"
  | .titleMismatch engine => "must match the engine agent name: " ++ engine.title
  | .figureIncomplete => "requires label and value"
  | .dataAbsent => "requires data or dataRef"
  | .tooDeep limit => "exceeds maximum nesting depth of " ++ Nat.repr limit

/-- **`Defect.message`** -- the message of a defect at a place. -/
def Defect.message (defect : Defect) (place : Path) : String :=
  match defect with
  | .headerAbsent => "missing " ++ place.render
  | other => place.render ++ " " ++ other.clause

/-- **`Defect.diagnostic`** -- a defect at a place. -/
def Defect.diagnostic (defect : Defect) (place : Path) : Diagnostic :=
  ⟨defect.kind, place, defect.message place⟩

@[simp] theorem Defect.diagnostic_kind (d : Defect) (p : Path) : (d.diagnostic p).kind = d.kind :=
  rfl

@[simp] theorem Defect.diagnostic_path (d : Defect) (p : Path) : (d.diagnostic p).path = p :=
  rfl

end ChapterCheck
