/-
# ChapterCheck.Files.Tree -- a tree of files as a snapshot

A `Tree` holds files and directories in memory, and `Tree.snapshot` says what every path leads to,
seen from its top. A path is followed name by name: an empty name and `.` stay where they are, `..`
goes back, and every name, even one that stays, needs a directory to be in. So `a//b` is `a/b`, and
`a/` is no file. A name is looked up only if it is short enough, which is found out in the directory
where it is looked up, so a missing directory in front of it is told first. Of what is above the
tree, no more is known than that it consists of directories.
-/
import ChapterCheck.Files

namespace ChapterCheck

/-- A **`Tree`** of files. -/
inductive Tree where
  | file (bytes : List UInt8)
  | directory (entries : List (RawText × Tree))

namespace Tree

/-- A directory with nothing in it. -/
def empty : Tree := .directory []

/-- Cuts at every slash (`2F`). -/
def cut : List UInt8 → List (List UInt8)
  | [] => [[]]
  | b :: rest =>
    if b = 0x2F then [] :: cut rest
    else
      match cut rest with
      | [] => [[b]]
      | first :: others => (b :: first) :: others

/-- **`names`** -- the names in a path, between the slashes. -/
def names (path : RawText) : List RawText :=
  (cut path.bytes).map RawText.mk

/-- The name of the directory that one is in. -/
def hereName : RawText := ⟨[0x2E]⟩

/-- The name of the directory above. -/
def aboveName : RawText := ⟨[0x2E, 0x2E]⟩

/-- What lies under the first name of a path, and all that does not. -/
def child? (name : RawText) (entries : List (RawText × Tree)) : Option Tree :=
  List.lookup name entries

/-- **`put`** -- a tree with something at the end of a path of names; directories on the way are
made where they are missing. What stands there already is kept if both are directories. -/
def put (leaf : Tree) : List RawText → Tree → Tree
  | [], .directory entries =>
    match leaf with
    | .directory [] => .directory entries
    | other => other
  | [], .file _ => leaf
  | name :: rest, t =>
    let entries := match t with
      | .directory entries => entries
      | .file _ => []
    .directory ((name, put leaf rest ((child? name entries).getD empty))
      :: entries.filter (·.1 != name))

/-- The bytes that a name in a directory may have. -/
def maxNameBytes : Nat := 255

/-- The bytes that a path may have. -/
def maxPathBytes : Nat := 4095

/-- Follows names from a place in a tree; `above` holds the directories that lead there, the nearest
one first. -/
def follow (above : List Tree) (here : Tree) : List RawText → Opened
  | [] =>
    match here with
    | .file bytes => .content bytes
    | .directory _ => .directory
  | name :: rest =>
    match here with
    | .file _ => .refused .notDirectory
    | .directory entries =>
      if name.bytes = [] ∨ name = hereName then follow above here rest
      else if name = aboveName then
        match above with
        | [] => follow [] empty rest
        | parent :: higher => follow higher parent rest
      else if maxNameBytes < name.bytes.length then .refused .nameTooLong
      else
        match child? name entries with
        | none => .refused .notFound
        | some next => follow (here :: above) next rest

/-- **`snapshot`** -- what every path leads to. A path from the root of the system leads away from
the tree; a path without anything in it leads nowhere. -/
def snapshot (tree : Tree) : Snapshot := fun path =>
  if path.bytes.contains 0 then .refused .zeroByte
  else if maxPathBytes < path.bytes.length then .refused .nameTooLong
  else
    match names path with
    | [⟨[]⟩] => .refused .notFound
    | ⟨[]⟩ :: rest => follow [] empty rest
    | path => follow [] tree path

end Tree

end ChapterCheck
