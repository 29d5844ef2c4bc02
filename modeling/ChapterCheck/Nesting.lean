/-
# ChapterCheck.Nesting -- the places of blocks, by level

Where the blocks of a chapter stand, said without a word about defects. `Block.nested` gives the
blocks that a block holds, each with the steps that lead to it; `Chapter.blocksAt` gives those on
one level of a chapter, in the order of the document. Level one is the array `blocks` of the
chapter.

The paragraphs in the quote of an engine are on no level.
-/
import ChapterCheck.Chapter

namespace ChapterCheck

open Json

/-- A block at its place. -/
abbrev Placed := Path × Value

/-- The elements of an array, each at its place behind `base`. -/
def placed (base : Path) (items : List Value) : List Placed :=
  items.zipIdx.map fun (v, place) => (base ++ [.index place], v)

/-- The elements that an object holds under a key; none if it holds no array there. -/
def elements (v : Value) (key : String) : List Value :=
  ((v.field? key).bind Value.asArray?).getD []

/-- **`Block.nested`** -- the blocks that a block holds, each with the path to it. -/
def Block.nested (v : Value) : List Placed :=
  match v.asObject?.bind Block.kind? with
  | some .blockquote => placed [.field "blocks"] (elements v "blocks")
  | some .callout => placed [.field "blocks"] (elements v "blocks")
  | some .list =>
    (elements v "items").zipIdx.flatMap fun (item, i) =>
      placed [.field "items", .index i] (item.asArray?.getD [])
  | some .table =>
    (elements v "rows").zipIdx.flatMap fun (row, r) =>
      (elements row "cells").zipIdx.flatMap fun (cell, c) =>
        placed [.field "rows", .index r, .field "cells", .index c, .field "blocks"]
          (elements cell "blocks")
  | _ => []

/-- **`Block.descend`** -- the blocks that lie `levels` below a block, each at its place. -/
def Block.descend : (levels : Nat) → Placed → List Placed
  | 0, b => [b]
  | levels + 1, (place, v) =>
    (nested v).flatMap fun (inner, held) => descend levels (place ++ inner, held)

/-- **`Chapter.blocksAt`** -- the blocks on one level of a chapter, each at its place, in the order
of the document. -/
def Chapter.blocksAt (v : Value) : (level : Nat) → List Placed
  | 0 => []
  | level + 1 => (placed [.field "blocks"] (elements v "blocks")).flatMap (Block.descend level)

end ChapterCheck
