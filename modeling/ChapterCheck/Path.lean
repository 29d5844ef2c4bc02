/-
# ChapterCheck.Path -- the address of a node in a document

A node of a document is addressed by the steps that lead to it from the root: the field of an
object, or the place of an element in an array. A path is the list of its steps, root first, so
extension is `++`, "lies at or under" is `<+:`, and every fact about lists is a fact about paths.

`Path.render` is the written form, `blocks[2].items[0][1]`: a field is set off by a dot unless it
comes first, a place stands in brackets. The written form of a longer path extends the written form
of a shorter one (`Path.render_append`), which is what lets a message begin with its place.
-/

namespace ChapterCheck

/-- One **`Step`** from a node to a node it holds. -/
inductive Step where
  /-- To the value of an object under `name`. -/
  | field (name : String)
  /-- To the element of an array at `place`, counted from zero. -/
  | index (place : Nat)
  deriving DecidableEq, Repr

/-- A **`Path`** is the list of the steps from the root down; the root is `[]`. -/
abbrev Path := List Step

/-! ## The written form -/

/-- A place in brackets. -/
def Step.bracketed (place : Nat) : String :=
  "[" ++ Nat.repr place ++ "]"

/-- **`Step.leading`** -- a step that opens a path. -/
def Step.leading : Step → String
  | .field name => name
  | .index place => bracketed place

/-- **`Step.following`** -- a step that comes after another one: a field is set off by a dot. -/
def Step.following : Step → String
  | .field name => "." ++ name
  | .index place => bracketed place

/-- The steps after the first, written one after the other. -/
def Path.trail : List Step → String
  | [] => ""
  | step :: rest => step.following ++ trail rest

/-- **`Path.render`** -- the written form of a path. -/
def Path.render : Path → String
  | [] => ""
  | step :: rest => step.leading ++ trail rest

theorem Path.trail_append : ∀ p q : List Step, trail (p ++ q) = trail p ++ trail q
  | [], q => by simp [trail]
  | step :: rest, q => by simp [trail, trail_append rest q, String.append_assoc]

/-- A path that is not the root is written in front of whatever extends it. -/
theorem Path.render_append {p : Path} (h : p ≠ []) (q : List Step) :
    render (p ++ q) = render p ++ trail q := by
  cases p with
  | nil => exact absurd rfl h
  | cons step rest => simp [render, trail_append, String.append_assoc]

end ChapterCheck
