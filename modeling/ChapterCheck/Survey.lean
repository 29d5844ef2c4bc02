/-
# ChapterCheck.Survey -- what one look at a node finds

A `Survey` is what a look at one node finds, in the order of the document: defects, and blocks that
the node holds and that are to be looked at in turn. A survey goes no deeper than to those blocks,
so it needs no bound; and all its paths begin at the node, so it is the same wherever the node
stands.

The contracts of blocks, runs and marks are written with the few combinators below: `require` a key,
`filled` arrays, `each` element of an array, a `word` of the vocabulary, an `object`.
-/
import ChapterCheck.Diagnostic

namespace ChapterCheck

open Json

/-- A **`Finding`** -- a defect, or a block to be looked at in turn, with the path to it. -/
inductive Finding where
  | defect (place : Path) (what : Defect)
  | block (place : Path) (value : Value)

/-- Where a finding stands. -/
def Finding.place : Finding → Path
  | .defect place _ => place
  | .block place _ => place

/-- A finding as seen from a node above, `base` steps away. -/
def Finding.under (base : Path) : Finding → Finding
  | .defect place what => .defect (base ++ place) what
  | .block place value => .block (base ++ place) value

@[simp] theorem Finding.place_under (base : Path) (f : Finding) :
    (f.under base).place = base ++ f.place := by
  cases f <;> rfl

@[simp] theorem Finding.under_nil (f : Finding) : f.under [] = f := by
  cases f <;> rfl

theorem Finding.under_under (p q : Path) (f : Finding) :
    (f.under q).under p = f.under (p ++ q) := by
  cases f <;> simp [under, List.append_assoc]

/-- A **`Survey`** -- the findings at a node, in the order of the document. -/
abbrev Survey := List Finding

namespace Survey

/-- **`under`** -- a survey as seen from a node above. -/
def under (base : Path) (survey : Survey) : Survey :=
  survey.map (Finding.under base)

/-- A single defect, at the node itself. -/
def here (what : Defect) : Survey :=
  [.defect [] what]

/-- A single defect, at a field of the node. -/
def atField (key : String) (what : Defect) : Survey :=
  [.defect [.field key] what]

/-- **`block`** -- the node is a block that is looked at in turn. -/
def block (v : Value) : Survey :=
  [.block [] v]

/-- **`require`** -- a key has to be there; what it holds does not matter, `null` included. -/
def require (owner : Members) (key : String) : Survey :=
  if owner.has key then [] else atField key .absent

/-- **`each`** -- every element of an array, one after the other. -/
def each (check : Value → Survey) (items : List Value) : Survey :=
  items.zipIdx.flatMap fun (v, place) => under [.index place] (check v)

/-- **`filled`** -- a field has to hold an array with at least one element; then every element is
checked. -/
def filled (owner : Members) (key : String) (check : Value → Survey) : Survey :=
  match owner.get? key with
  | some (.array (first :: rest)) => under [.field key] (each check (first :: rest))
  | _ => atField key (.shape .filledArray)

/-- **`object`** -- the node has to be an object; then its members are checked. -/
def object (v : Value) (check : Members → Survey) : Survey :=
  match v with
  | .object members => check members
  | _ => here (.shape .object)

/-- **`word`** -- a field has to hold a word of the set `α`. -/
def word (α : Type) [Tagged α] (owner : Members) (key : String) : Survey :=
  match Tagged.ofValue? α (owner.get? key) with
  | some _ => []
  | none => atField key (.invalid (owner.get? key))

end Survey

end ChapterCheck
