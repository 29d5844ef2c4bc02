/-
# ChapterCheck.CommandLine.Arguments -- what a command line asks for

`Invocation.parse` reads the arguments of the program; it gives nothing where they break the rules.
Arguments come as the system hands them over. Paths are taken as they are; everything else has to be
a text, and what is none has no meaning, like any unknown name.

* An argument that begins with `-` is an option, but for `-` itself. `--name=value` gives a long
  option its value at once; otherwise the value is the next argument, which must not be an option.
* `--in` takes one value or more, up to the next option, and may be repeated. Values given by `=`
  stand alone: what follows is no value of `--in`. The other options are given at most once.
* `-v` may be repeated, together or apart, before and after the command; `-h` asks for help in
  either place, `-V` for the version in front of the command.
* Behind `help` at most the name of a command may follow.
* `--` ends the options. Nothing may follow it, since no argument goes without an option.
-/
import ChapterCheck.Text.Raw

namespace ChapterCheck.CommandLine

/-! ## Arguments, one by one -/

/-- An argument by its looks. -/
inductive Argument where
  /-- The end of the options, `--`. -/
  | ending
  /-- A long option, `--name` or `--name=value`. -/
  | long (name : String) (value : Option RawText)
  /-- Short options behind one dash, `-letters`. -/
  | short (letters : List Char)
  /-- Anything else. -/
  | value (given : RawText)
  deriving DecidableEq, Repr

/-- **`Argument.ofRaw`** -- what an argument looks like, by its dashes (`2D`) and the first equals
sign (`3D`). Names and letters are taken as they are shown, so what is no text is in no name. -/
def Argument.ofRaw (argument : RawText) : Argument :=
  match argument.bytes with
  | [0x2D, 0x2D] => .ending
  | 0x2D :: 0x2D :: rest =>
    .long (RawText.mk (rest.takeWhile (· != 0x3D))).shown
      (match rest.dropWhile (· != 0x3D) with
        | _ :: assigned => some ⟨assigned⟩
        | [] => none)
  | 0x2D :: b :: rest => .short (RawText.mk (b :: rest)).shown.toList
  | _ => .value argument

/-! ## Commands -/

/-- How a batch is printed. -/
inductive Format where
  | text
  | json
  deriving DecidableEq, Repr

/-- What `validate` is told. -/
structure Request where
  paths : List RawText := []
  format : Option Format := none
  parallel : Bool := false
  threads : Option Nat := none
  optionsPath : Option RawText := none
  maxDepth : Option UInt64 := none
  deriving DecidableEq, Repr

/-- What the program is asked to do. -/
inductive Command where
  | help
  | version
  | schema
  | validate (request : Request)
  deriving DecidableEq, Repr

/-- A command, and how much of the record is to be seen. -/
structure Invocation where
  command : Command
  verbosity : Nat := 0
  deriving DecidableEq, Repr

/-! ## Values -/

/-- A word of 64 bits in decimal digits; a plus sign may stand in front. -/
def word? (text : String) : Option UInt64 :=
  let digits := match text.toList with
    | '+' :: rest => rest
    | all => all
  if digits ≠ [] ∧ digits.all Char.isDigit then
    let n := digits.foldl (fun n c => n * 10 + (c.toNat - '0'.toNat)) 0
    if n < Nat.pow 2 64 then some (UInt64.ofNat n) else none
  else none

/-- A path, which must not be empty. -/
def path? (given : RawText) : Option RawText :=
  if given.bytes = [] then none else some given

/-- A format, by its name. -/
def format? (text : String) : Option Format :=
  if text = "text" then some .text else if text = "json" then some .json else none

/-- The options of `validate` that take a value. -/
inductive Valued where
  | paths
  | format
  | threads
  | options
  | maxDepth
  deriving DecidableEq, Repr

/-- The option with a name. -/
def Valued.ofName? (name : String) : Option Valued :=
  if name = "in" then some .paths
  else if name = "format" then some .format
  else if name = "threads" then some .threads
  else if name = "opts" then some .options
  else if name = "max-depth" then some .maxDepth
  else none

/-- Sets what is not set yet. -/
def once {α : Type} (held given : Option α) : Option α :=
  match held with
  | none => given
  | some _ => none

/-- **`Request.give`** -- gives an option a value, if it can take it. -/
def Request.give (r : Request) (option : Valued) (given : RawText) : Option Request :=
  match option with
  | .paths => (path? given).map fun path => { r with paths := r.paths ++ [path] }
  | .format => (once r.format (given.text?.bind format?)).map fun f =>
      { r with format := some f }
  | .threads => (once r.threads ((given.text?.bind word?).map UInt64.toNat)).map fun n =>
      { r with threads := some n }
  | .options => (once r.optionsPath (path? given)).map fun path =>
      { r with optionsPath := some path }
  | .maxDepth => (once r.maxDepth (given.text?.bind word?)).map fun n =>
      { r with maxDepth := some n }

/-! ## The arguments of a command -/

/-- What the next argument may be. -/
inductive Waiting where
  /-- An option. -/
  | option
  /-- A value for an option that has none yet. -/
  | value (option : Valued)
  /-- Another path, or an option. -/
  | path
  deriving DecidableEq, Repr

/-- Letters behind one dash. The first one that asks for something of its own decides; only in front
of the command can that be the version. -/
def readLetters (inCommand : Bool) (verbosity : Nat) : List Char → Option (Nat ⊕ Invocation)
  | [] => some (.inl verbosity)
  | 'v' :: rest => readLetters inCommand (verbosity + 1) rest
  | 'h' :: _ => some (.inr ⟨.help, verbosity⟩)
  | 'V' :: _ => if inCommand then none else some (.inr ⟨.version, verbosity⟩)
  | _ => none

/-- **`readRequest`** -- the arguments behind `validate`. -/
def readRequest (waiting : Waiting) (r : Request) (verbosity : Nat) :
    List RawText → Option Invocation
  | [] =>
    match waiting with
    | .value _ => none
    | _ => if r.paths = [] then none else some ⟨.validate r, verbosity⟩
  | argument :: rest =>
    match Argument.ofRaw argument, waiting with
    | .value given, .value option => do
      readRequest (if option = .paths then .path else .option) (← r.give option given) verbosity
        rest
    | .value given, .path => do readRequest .path (← r.give .paths given) verbosity rest
    | _, .value _ => none
    | .value _, .option => none
    | .ending, _ =>
      if rest = [] ∧ r.paths ≠ [] then some ⟨.validate r, verbosity⟩ else none
    | .short letters, _ =>
      match readLetters true verbosity letters with
      | some (.inl verbosity) => readRequest .option r verbosity rest
      | some (.inr invocation) => some invocation
      | none => none
    | .long name value, _ =>
      if name = "verbose" then
        if value = none then readRequest .option r (verbosity + 1) rest else none
      else if name = "parallel" then
        if value = none ∧ !r.parallel then
          readRequest .option { r with parallel := true } verbosity rest
        else none
      else if name = "help" then
        if value = none then some ⟨.help, verbosity⟩ else none
      else
        match Valued.ofName? name, value with
        | none, _ => none
        | some option, none => readRequest (.value option) r verbosity rest
        | some option, some given => do readRequest .option (← r.give option given) verbosity rest

/-- The arguments behind `schema`: nothing but `-v`. -/
def readSchema (verbosity : Nat) : List RawText → Option Invocation
  | [] => some ⟨.schema, verbosity⟩
  | argument :: rest =>
    match Argument.ofRaw argument with
    | .ending => if rest = [] then some ⟨.schema, verbosity⟩ else none
    | .short letters =>
      match readLetters true verbosity letters with
      | some (.inl verbosity) => readSchema verbosity rest
      | some (.inr invocation) => some invocation
      | none => none
    | .long "verbose" none => readSchema (verbosity + 1) rest
    | .long "help" none => some ⟨.help, verbosity⟩
    | _ => none

/-- The arguments behind `help`: nothing, or the name of a command. They are taken as they stand, so
an option is no name either. -/
def readHelp (verbosity : Nat) : List RawText → Option Invocation
  | [] => some ⟨.help, verbosity⟩
  | [name] =>
    match name.text? with
    | some "validate" | some "schema" | some "help" => some ⟨.help, verbosity⟩
    | _ => none
  | _ => none

/-! ## The whole command line -/

/-- The arguments from the front on. -/
def readCommand (verbosity : Nat) : List RawText → Option Invocation
  | [] => none
  | argument :: rest =>
    match Argument.ofRaw argument with
    | .value name =>
      match name.text? with
      | some "validate" => readRequest .option {} verbosity rest
      | some "schema" => readSchema verbosity rest
      | some "help" => readHelp verbosity rest
      | _ => none
    | .long "verbose" none => readCommand (verbosity + 1) rest
    | .long "version" none => some ⟨.version, verbosity⟩
    | .long "help" none => some ⟨.help, verbosity⟩
    | .short letters =>
      match readLetters false verbosity letters with
      | some (.inl verbosity) => readCommand verbosity rest
      | some (.inr invocation) => some invocation
      | none => none
    | _ => none

/-- **`Invocation.parse`** -- what the arguments of the program ask for. -/
def Invocation.parse (arguments : List RawText) : Option Invocation :=
  readCommand 0 arguments

end ChapterCheck.CommandLine
