/-
# ChapterCheck.Proofs.Accounts -- text and document tell the same of a batch

A batch is printed as text or as a document; a document there is where all paths are texts. `told?`
works out the text of a file from what the document says of it, by the fields of its object alone;
the text of the batch is what it gives for the entries of the document, one after the other
(`stdout_validate_json`). The document is what the output holds: all of it is `Regular`, so it is
read back from what is printed.
-/
import ChapterCheck.Proofs.ReadBack
import ChapterCheck.Proofs.Verdict
import ChapterCheck.Proofs.Workers

namespace ChapterCheck

open Json

/-! ## From document to text -/

/-- The string that an object holds under a key. -/
def string? (v : Value) (key : String) : Option String :=
  (v.field? key).bind Value.asString?

/-- **`told?`** -- the lines for a file, from the object that stands for it. -/
def told? (entry : Value) : Option String := do
  let path ← string? entry "path"
  match entry.field? "loadError", entry.field? "ok" with
  | some _, _ => return line ("ERROR " ++ path ++ ": " ++ (← string? entry "loadError"))
  | none, some (.bool true) => return line ("ok    " ++ path)
  | none, _ =>
    let errors ← (entry.field? "errors").bind Value.asArray?
    let messages ← errors.mapM (string? · "message")
    return line ("FAIL  " ++ path ++ " (" ++ Nat.repr errors.length ++ " errors)")
      ++ String.join (messages.map fun message => line ("      " ++ message))

/-- What is told of every element is told of all. -/
theorem mapM_map_eq_some {α β γ : Type} {f : β → Option γ} {g : α → β} {h : α → γ}
    (hall : ∀ a, f (g a) = some (h a)) (items : List α) :
    (items.map g).mapM f = some (items.map h) := by
  rw [List.mapM_map]
  exact mapM_eq_some fun a _ => hall a

theorem Diagnostic.string?_message (d : Diagnostic) : string? d.json "message" = some d.message :=
  rfl

namespace Entry

/-- The lines of a file are those that its object tells. -/
theorem told?_json (e : Entry) : told? (e.json e.path.shown) = some e.text := by
  obtain ⟨path, id, outcome⟩ := e
  cases outcome with
  | unreadable failure => rfl
  | checked report =>
    obtain ⟨version, errors⟩ := report
    cases errors with
    | nil => rfl
    | cons d rest =>
      have hmessages : ((d :: rest).map Diagnostic.json).mapM (string? · "message")
          = some ((d :: rest).map Diagnostic.message) :=
        mapM_map_eq_some (f := (string? · "message")) Diagnostic.string?_message (d :: rest)
      have hlength : ((d :: rest).map Diagnostic.json).length = (d :: rest).length :=
        List.length_map _
      show ((((d :: rest).map Diagnostic.json).mapM (string? · "message")).bind fun messages =>
        some (line ("FAIL  " ++ path.shown ++ " ("
            ++ Nat.repr ((d :: rest).map Diagnostic.json).length ++ " errors)")
          ++ String.join (messages.map fun message => line ("      " ++ message)))) = _
      rw [hmessages, hlength]
      rfl

/-- A file is in order exactly if its object has errors and they are none. -/
theorem field?_ok_iff (e : Entry) (path : String) :
    (e.json path).field? "ok" = some (.bool true)
      ↔ (e.json path).field? "errors" = some (.array []) := by
  obtain ⟨-, id, outcome⟩ := e
  cases outcome with
  | unreadable failure => constructor <;> nofun
  | checked report =>
    obtain ⟨version, errors⟩ := report
    cases errors with
    | nil => exact iff_of_true rfl rfl
    | cons d rest => constructor <;> nofun

/-- A file could not be loaded exactly if its object has no errors, not even none. -/
theorem field?_loadError_iff (e : Entry) (path : String) :
    ((e.json path).field? "loadError").isSome ↔ (e.json path).field? "errors" = none := by
  obtain ⟨-, id, outcome⟩ := e
  cases outcome with
  | unreadable failure => exact iff_of_true rfl rfl
  | checked report => constructor <;> nofun

end Entry

/-! ## What is printed is read back -/

theorem Diagnostic.regular_json (d : Diagnostic) (room : Nat) : Regular (room + 1) d.json := by
  have hkeys : ["kind", "message", "path"].Pairwise (· < ·) := by decide
  refine .object hkeys ?_
  simp only [List.forall_mem_cons]
  exact ⟨.string _ _, .string _ _, .string _ _, nofun⟩

theorem Entry.regular_json (e : Entry) (path : String) (room : Nat) :
    Regular (room + 3) (e.json path) := by
  obtain ⟨-, id, outcome⟩ := e
  cases outcome with
  | unreadable failure =>
    have hkeys : ["loadError", "ok", "path"].Pairwise (· < ·) := by decide
    refine .object hkeys ?_
    simp only [List.forall_mem_cons]
    exact ⟨.string _ _, .bool _ _, .string _ _, nofun⟩
  | checked report =>
    have hkeys : ["chapterId", "errors", "ok", "path", "schemaVersion"].Pairwise (· < ·) := by
      decide
    have hid : Regular (room + 2) ((id.map Value.string).getD .null) := by
      cases id with
      | none => exact .null _
      | some id => exact .string _ id
    have herrors : ∀ v ∈ report.errors.map Diagnostic.json, Regular (room + 1) v := by
      rw [List.forall_mem_map]
      exact fun d _ => d.regular_json room
    refine .object hkeys ?_
    simp only [List.forall_mem_cons]
    exact ⟨hid, .array herrors, .bool _ _, .string _ _, .string _ _, nofun⟩

/-- The objects that stand for the files of a batch. -/
def Batch.objects (b : Batch) : List Value :=
  b.entries.map fun e => e.json e.path.shown

theorem Batch.regular_objects (b : Batch) (room : Nat) :
    Regular (room + 4) (.array b.objects) := by
  have hobjects : ∀ v ∈ b.objects, Regular (room + 3) v := by
    rw [objects, List.forall_mem_map]
    exact fun e _ => e.regular_json e.path.shown room
  exact .array hobjects

/-- The document of a batch is what is printed of it. -/
theorem Batch.ofText_objects (b : Batch) :
    Value.ofText (line (Value.array b.objects).pretty) = .ok (.array b.objects) :=
  Value.ofText_pretty (b.regular_objects 123) blanks_newline

theorem line_ne_empty (s : String) : line s ≠ "" := by
  intro h
  have hlength := congrArg String.length h
  rw [line, String.length_append] at hlength
  exact absurd hlength (Nat.succ_ne_zero _)

/-! ## Two runs -/

namespace CommandLine

/-- **`stdout_validate_json`** -- two command lines that differ in the format alone, text and
document, with paths that are texts. Both end with the same status. If the one prints nothing, the
other one has the same outcome. Otherwise what the one prints is a list of objects, and what the
other one prints is what these tell, in order; of each object, it is in order if it has errors and
they are none, and it has an error of loading if it has no errors. -/
theorem stdout_validate_json {arguments arguments' : List RawText} {r : Request}
    {format : Option Format} {verbosity verbosity' : Nat}
    (htext : Invocation.parse arguments
      = some ⟨.validate { r with format := format }, verbosity⟩)
    (hformat : format.getD .text = .text)
    (hjson : Invocation.parse arguments'
      = some ⟨.validate { r with format := some .json }, verbosity'⟩)
    (hpaths : ∀ path ∈ r.paths, path.text?.isSome) (files : Snapshot) (staff : Staff) :
    (execute files staff arguments).exitStatus = (execute files staff arguments').exitStatus
    ∧ ((execute files staff arguments').stdout = "" →
      execute files staff arguments = execute files staff arguments')
    ∧ ((execute files staff arguments').stdout ≠ "" → ∃ entries texts,
      Value.ofText (execute files staff arguments').stdout = .ok (.array entries)
      ∧ entries.mapM told? = some texts
      ∧ (execute files staff arguments).stdout = String.join texts
      ∧ ∀ entry ∈ entries,
        (entry.field? "ok" = some (.bool true) ↔ entry.field? "errors" = some (.array []))
        ∧ ((entry.field? "loadError").isSome ↔ entry.field? "errors" = none)) := by
  have hexecute : execute files staff arguments
      = validate files staff { r with format := format } := by
    rw [execute, htext]
    rfl
  have hexecute' : execute files staff arguments'
      = validate files staff { r with format := some .json } := by
    rw [execute, hjson]
    rfl
  have hbatch : ({ r with format := format } : Request).batch files staff
      = r.batch files staff := rfl
  have hbatch' : ({ r with format := some .json } : Request).batch files staff
      = r.batch files staff := rfl
  rw [hexecute, hexecute', validate, validate, hbatch, hbatch', hformat]
  cases hdone : r.batch files staff with
  | error trouble => exact ⟨rfl, fun _ => rfl, fun hne => (hne rfl).elim⟩
  | ok b =>
    have hentries : ∀ e ∈ b.entries, e.path.text?.isSome := by
      intro e he
      exact hpaths e.path (Request.paths_batch hdone ▸ List.mem_map_of_mem he)
    have hprinted : printed ((some Format.json).getD .text) b
        = { exitStatus := verdict b, stdout := line (Value.array b.objects).pretty } := by
      rw [Option.getD_some, printed, Batch.json?_eq hentries]
      rfl
    dsimp only
    rw [hprinted]
    refine ⟨rfl, fun hempty => (line_ne_empty _ hempty).elim, fun _ => ?_⟩
    refine ⟨b.objects, b.entries.map Entry.text, b.ofText_objects, ?_, rfl, ?_⟩
    · exact mapM_map_eq_some Entry.told?_json b.entries
    · rw [Batch.objects, List.forall_mem_map]
      exact fun e _ => ⟨e.field?_ok_iff _, e.field?_loadError_iff _⟩

/-- A chapter that is `null` and a directory, once as text and once as a document. -/
theorem stdout_validate_json_mixed :
    Invocation.parse (texts ["validate", "--in", "null.json", "chapters"])
        = some ⟨.validate { paths := texts ["null.json", "chapters"] }, 0⟩
      ∧ (none : Option Format).getD .text = .text
      ∧ Invocation.parse (texts ["validate", "--in", "null.json", "chapters", "--format", "json"])
        = some ⟨.validate { paths := texts ["null.json", "chapters"], format := some .json }, 0⟩
      ∧ (∀ path ∈ texts ["null.json", "chapters"], path.text?.isSome)
      ∧ ∃ entries told, Value.ofText (execute mixedFiles anyStaff
          (texts ["validate", "--in", "null.json", "chapters", "--format", "json"])).stdout
          = .ok (.array entries)
        ∧ entries.mapM told? = some told
        ∧ (execute mixedFiles anyStaff
            (texts ["validate", "--in", "null.json", "chapters"])).stdout = String.join told := by
  have htext : Invocation.parse (texts ["validate", "--in", "null.json", "chapters"])
      = some ⟨.validate { paths := texts ["null.json", "chapters"] }, 0⟩ := by decide +kernel
  have hjson : Invocation.parse
      (texts ["validate", "--in", "null.json", "chapters", "--format", "json"])
      = some ⟨.validate { paths := texts ["null.json", "chapters"], format := some .json }, 0⟩ := by
    decide +kernel
  have hpaths : ∀ path ∈ texts ["null.json", "chapters"], path.text?.isSome := by
    rw [texts, List.forall_mem_map]
    exact fun word _ => by rw [RawText.text?_ofString]; rfl
  have hprinted : (execute mixedFiles anyStaff
      (texts ["validate", "--in", "null.json", "chapters", "--format", "json"])).stdout ≠ "" := by
    decide +kernel
  let r : Request := { paths := texts ["null.json", "chapters"] }
  obtain ⟨entries, told, hread, htold, hstdout, -⟩ :=
    (stdout_validate_json (r := r) htext rfl hjson hpaths mixedFiles anyStaff).2.2 hprinted
  exact ⟨htext, rfl, hjson, hpaths, entries, told, hread, htold, hstdout⟩

end CommandLine

end ChapterCheck
