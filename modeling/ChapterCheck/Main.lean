/-
# ChapterCheck.Main -- the program

Opens what the arguments name, hands it to `CommandLine` as a snapshot, and prints what comes back.
All decisions are made there. Arguments arrive here as texts, and workers can be had at any time, as
paths are read one after the other.
-/
import ChapterCheck.CommandLine.Outcome

namespace ChapterCheck.CommandLine

/-- The number of an error of the system, which may come with its sign turned around. -/
def errorNumber (code : UInt32) : Nat :=
  if code < 0x80000000 then code.toNat else (0 - code).toNat

/-- What an error of the system says of a path that was opened and read. -/
def openedOfError : IO.Error → Opened
  | .noFileOrDirectory .. => .refused .notFound
  | .inappropriateType _ code details =>
    match errorNumber code with
    | 20 => .refused .notDirectory
    | 21 => .directory
    | _ => .refused (.other details)
  | .invalidArgument _ code details =>
    .refused (if errorNumber code = 36 then .nameTooLong else .other details)
  | .hardwareFault .. => .broken "Input/output error (os error 5)"
  | .permissionDenied .. => .refused (.other "Permission denied (os error 13)")
  | e => .refused (.other (toString e))

/-- Opens a path and reads what it leads to. -/
def openPath (path : RawText) : IO Opened := do
  try
    return .content (← IO.FS.readBinFile path.shown).toList
  catch e =>
    return openedOfError e

/-- The paths that a command reads. -/
def Command.reads : Command → List RawText
  | .validate r => r.optionsPath.toList ++ r.paths
  | _ => []

/-- The snapshot of the paths that are read; no other path is asked for. -/
def snapshotOf (paths : List RawText) : IO Snapshot := do
  let opened ← paths.mapM fun path => return (path, ← openPath path)
  return fun path => (List.lookup path opened).getD (.refused .notFound)

end ChapterCheck.CommandLine

open ChapterCheck CommandLine in
/-- **`main`** -- the program. -/
def main (arguments : List String) : IO UInt32 := do
  match Invocation.parse (arguments.map .ofString) with
  | none =>
    IO.eprint usage
    return 2
  | some invocation =>
    let files ← snapshotOf invocation.command.reads
    for event in record files anyStaff invocation.command do
      if event.shows invocation.verbosity then IO.eprintln event.text
    let outcome := run files anyStaff invocation.command
    IO.print outcome.stdout
    IO.eprint outcome.stderr
    return UInt32.ofNat outcome.exitStatus
