/-
# ChapterCheck.Proofs.Lines -- the lines of the text of a batch

The text of a batch is meant to have one line for each file and one for each diagnostic. The lines
for the files are what they are meant to be. A message may show a string of the chapter as it is,
and what stands behind a line break of that string becomes lines of their own: they are `spilled`.

The main statement is `CommandLine.lines_validate`. It counts the lines that are printed, all of
them and those that begin like the line of a file; they are as many as are meant, and the spilled
ones besides. And it says where a spilled line comes from: a string of the chapter to which the path
of a diagnostic leads.
-/
import Mathlib.Algebra.GroupWithZero.Nat
import ChapterCheck.Proofs.Refusals
import ChapterCheck.Proofs.Requests
import ChapterCheck.Proofs.Shown

namespace ChapterCheck

open Json

/-! ## Lines -/

namespace Text

/-- The pieces of a text between its line breaks; one at least. -/
def pieces (s : String) : List String :=
  (s.toList.splitOn '\n').map String.ofList

/-- **`lines`** -- the lines of a text. Behind the last line break there is one more if something
stands there. -/
def lines (s : String) : List String :=
  if (pieces s).getLast? = some "" then (pieces s).dropLast else pieces s

/-- **`spill`** -- what a text has behind its first line break, line by line. -/
def spill (s : String) : List String :=
  (pieces s).tail

/-- Whether a text begins with a word. -/
def begins (word s : String) : Bool :=
  word.toList.isPrefixOf s.toList

theorem pieces_ne_nil (s : String) : pieces s ≠ [] := by
  simp [pieces]

theorem pieces_of_oneLine {s : String} (h : OneLine s) : pieces s = [s] := by
  rw [pieces, List.splitOn_eq_singleton h, List.map_singleton, String.ofList_toList]

theorem spill_of_oneLine {s : String} (h : OneLine s) : spill s = [] := by
  rw [spill, pieces_of_oneLine h, List.tail_cons]

theorem splitOn_append_of_not_mem {xs : List Char} (h : '\n' ∉ xs) (ys : List Char) :
    (xs ++ ys).splitOn '\n' = (ys.splitOn '\n').modifyHead (xs ++ ·) := by
  induction xs with
  | nil =>
    show ys.splitOn '\n' = (ys.splitOn '\n').modifyHead id
    rw [List.modifyHead_id, id]
  | cons c rest ih =>
    have hc : (c == '\n') = false := by
      rw [beq_eq_false_iff_ne]
      rintro rfl
      exact h List.mem_cons_self
    rw [List.cons_append, List.splitOn_cons_eq_if_modifyHead, hc,
      ih fun hrest => h (List.mem_cons_of_mem c hrest)]
    exact List.modifyHead_modifyHead ..

/-- What is put in front of a text without a line break stays on its first line. -/
theorem pieces_append {lead : String} (h : OneLine lead) (s : String) :
    ∃ first, pieces (lead ++ s) = (lead ++ first) :: spill s := by
  obtain ⟨cs, rest, hsplit⟩ := List.exists_cons_of_ne_nil (List.splitOn_ne_nil '\n' s.toList)
  refine ⟨String.ofList cs, ?_⟩
  have hlead : String.ofList (lead.toList ++ cs) = lead ++ String.ofList cs := by
    rw [String.ofList_append, String.ofList_toList]
  rw [pieces, String.toList_append, splitOn_append_of_not_mem h, spill, pieces, hsplit,
    List.modifyHead_cons, List.map_cons, List.map_cons, List.tail_cons, hlead]

theorem spill_append {lead : String} (h : OneLine lead) (s : String) :
    spill (lead ++ s) = spill s := by
  obtain ⟨first, heq⟩ := pieces_append h s
  rw [spill, heq, List.tail_cons]

theorem pieces_line_append (s t : String) : pieces (line s ++ t) = pieces s ++ pieces t := by
  have hlist : (line s ++ t).toList = s.toList ++ '\n' :: t.toList := by
    rw [line, String.toList_append, String.toList_append, List.append_assoc]
    rfl
  rw [pieces, hlist, List.splitOn_append_cons_self, List.map_append]
  rfl

theorem lines_empty : lines "" = [] := by
  decide

theorem lines_line_append (s t : String) : lines (line s ++ t) = pieces s ++ lines t := by
  have hlast : (pieces s ++ pieces t).getLast? = (pieces t).getLast? := by
    rw [List.getLast?_append, List.getLast?_eq_some_getLast (pieces_ne_nil t), Option.some_or]
  rw [lines, lines, pieces_line_append, hlast]
  split
  · exact List.dropLast_append_of_ne_nil (pieces_ne_nil t)
  · rfl

/-- Rows that are printed one after the other are found again, each in its pieces. -/
theorem lines_join_append (rows : List String) (t : String) :
    lines (String.join (rows.map line) ++ t) = rows.flatMap pieces ++ lines t := by
  induction rows with
  | nil =>
    rw [List.map_nil, String.join_nil, String.empty_append, List.flatMap_nil, List.nil_append]
  | cons row rest ih =>
    rw [List.map_cons, String.join_cons, String.append_assoc, lines_line_append, ih,
      List.flatMap_cons, List.append_assoc]

/-- Of two words of the same length, a text begins with one at most. -/
theorem begins_append {word lead : String} (hlength : word.toList.length = lead.toList.length)
    (s : String) : begins word (lead ++ s) = decide (word = lead) := by
  rw [begins, String.toList_append, Bool.eq_iff_iff, List.isPrefixOf_iff_prefix, decide_eq_true_eq]
  constructor
  · intro h
    have hbegin := List.prefix_of_prefix_length_le h (List.prefix_append _ _) (Nat.le_of_eq hlength)
    exact String.toList_inj.mp (hbegin.eq_of_length hlength)
  · rintro rfl
    exact List.prefix_append _ _

end Text

open Text

/-! ## The lines of a file -/

namespace Entry

/-- The word with which the line of a file begins. -/
def label (e : Entry) : String :=
  if e.passed then "ok    " else if e.failed then "FAIL  " else "ERROR "

/-- What the line of a file says behind that word. -/
def detail (e : Entry) : String :=
  match e.outcome with
  | .checked report =>
    if report.ok then e.path.shown
    else e.path.shown ++ " (" ++ Nat.repr report.errors.length ++ " errors)"
  | .unreadable failure => e.path.shown ++ ": " ++ failure.message

/-- The line that is meant for the file itself. -/
def verdict (e : Entry) : String :=
  e.label ++ e.detail

/-- The diagnostics of a file; none if it could not be loaded. -/
def errors (e : Entry) : List Diagnostic :=
  match e.outcome with
  | .checked report => report.errors
  | .unreadable _ => []

/-- A message as it stands in the text of a batch. -/
def indented (d : Diagnostic) : String :=
  "      " ++ d.message

/-- **`spilled`** -- the lines of the messages of a file behind the first of each. -/
def spilled (e : Entry) : List String :=
  e.errors.flatMap fun d => spill d.message

/-- A line is meant for the file and one for each of its diagnostics. -/
theorem text_eq (e : Entry) :
    e.text = String.join ((e.verdict :: e.errors.map indented).map line) := by
  obtain ⟨path, id, outcome⟩ := e
  cases outcome with
  | unreadable failure =>
    show line ("ERROR " ++ path.shown ++ ": " ++ failure.message)
      = String.join [line ("ERROR " ++ (path.shown ++ ": " ++ failure.message))]
    simp only [String.join_cons, String.join_nil, String.append_empty, String.append_assoc]
  | checked report =>
    obtain ⟨version, errors⟩ := report
    cases errors with
    | nil =>
      show line ("ok    " ++ path.shown) = String.join [line ("ok    " ++ path.shown)]
      rw [String.join_cons, String.join_nil, String.append_empty]
    | cons d rest =>
      rw [List.map_cons, String.join_cons, List.map_map]
      show line ("FAIL  " ++ path.shown ++ _ ++ _ ++ _)
          ++ String.join (List.map _ (List.map _ (d :: rest)))
        = line ("FAIL  " ++ (path.shown ++ _ ++ _ ++ _)) ++ String.join (List.map _ (d :: rest))
      simp only [String.append_assoc, List.map_map]
      rfl

theorem lines_text_append {e : Entry} (h : OneLine e.verdict) (t : String) :
    lines (e.text ++ t)
      = (e.verdict :: e.errors.flatMap fun d => pieces (indented d)) ++ lines t := by
  rw [text_eq, lines_join_append, List.flatMap_cons, pieces_of_oneLine h, List.flatMap_map,
    List.singleton_append]

theorem oneLine_spaces : OneLine "      " := by
  decide

theorem length_pieces_indented (errors : List Diagnostic) :
    (errors.flatMap fun d => pieces (indented d)).length
      = errors.length + (errors.flatMap fun d => spill d.message).length := by
  induction errors with
  | nil => rfl
  | cons d rest ih =>
    obtain ⟨first, hpieces⟩ := pieces_append oneLine_spaces d.message
    rw [List.flatMap_cons, List.flatMap_cons, List.length_append, List.length_append, ih, indented,
      hpieces, List.length_cons, List.length_cons]
    omega

/-- The first line of a message begins with blanks, so only a spilled line begins with a word. -/
theorem countP_pieces_indented {word : String} (hlength : word.toList.length = 6)
    (hword : word ≠ "      ") (errors : List Diagnostic) :
    (errors.flatMap fun d => pieces (indented d)).countP (begins word)
      = (errors.flatMap fun d => spill d.message).countP (begins word) := by
  have hblank (s : String) : begins word ("      " ++ s) = false := by
    rw [begins_append hlength, decide_eq_false hword]
  induction errors with
  | nil => rfl
  | cons d rest ih =>
    obtain ⟨first, hpieces⟩ := pieces_append oneLine_spaces d.message
    rw [List.flatMap_cons, List.flatMap_cons, List.countP_append, List.countP_append, ih, indented,
      hpieces, List.countP_cons_of_neg (by simp [hblank])]

theorem length_label (e : Entry) : e.label.toList.length = 6 := by
  rw [label]
  split
  · decide
  · split <;> decide

/-- The line of a file begins with the word for what came of it. -/
theorem begins_verdict {word : String} (hlength : word.toList.length = 6) (e : Entry) :
    begins word e.verdict = decide (word = e.label) :=
  begins_append (hlength.trans e.length_label.symm) e.detail

theorem begins_ok (e : Entry) : begins "ok    " e.verdict = e.passed := by
  rw [begins_verdict (by decide), label]
  cases e.passed <;> cases e.failed <;> decide

theorem begins_fail (e : Entry) : begins "FAIL  " e.verdict = e.failed := by
  have hone := e.passed_failed_unreadable
  rw [begins_verdict (by decide), label]
  revert hone
  cases e.passed <;> cases e.failed <;> cases e.unreadable <;> decide

theorem begins_error (e : Entry) : begins "ERROR " e.verdict = e.unreadable := by
  have hone := e.passed_failed_unreadable
  rw [begins_verdict (by decide), label]
  revert hone
  cases e.passed <;> cases e.failed <;> cases e.unreadable <;> decide

/-- How many lines are meant for a file. -/
theorem length_rows (e : Entry) :
    1 + e.errors.length = (if e.passed then 1 else 0) + (if e.unreadable then 1 else 0)
      + (if e.failed then 1 + e.errors.length else 0) := by
  obtain ⟨path, id, outcome⟩ := e
  cases outcome with
  | unreadable failure => rfl
  | checked report =>
    obtain ⟨version, errors⟩ := report
    cases errors with
    | nil => rfl
    | cons d rest => exact (Nat.zero_add _).symm

end Entry

/-! ## The lines of a batch -/

namespace Batch

/-- The lines of the messages of all files behind the first of each. -/
def spilled (b : Batch) : List String :=
  b.entries.flatMap Entry.spilled

/-- The lines that are meant for the files that are not in order: one for each file, and one for
each of its diagnostics. -/
def failedLines (b : Batch) : Nat :=
  ((b.entries.filter Entry.failed).map fun e => 1 + e.errors.length).sum

/-- The text of a batch, file by file and message by message. -/
theorem lines_text {b : Batch} (h : ∀ e ∈ b.entries, OneLine e.verdict) :
    lines b.text = b.entries.flatMap fun e =>
      e.verdict :: e.errors.flatMap fun d => pieces (Entry.indented d) := by
  obtain ⟨entries⟩ := b
  rw [text]
  induction entries with
  | nil => exact lines_empty
  | cons e rest ih =>
    have hrest := ih fun other hother => h other (List.mem_cons_of_mem e hother)
    rw [List.map_cons, String.join_cons, Entry.lines_text_append (h e List.mem_cons_self), hrest,
      List.flatMap_cons]

/-- How many lines a batch has: those that are meant, and those that are spilled. -/
theorem length_lines {b : Batch} (h : ∀ e ∈ b.entries, OneLine e.verdict) :
    (lines b.text).length = b.passed + b.unreadable + b.failedLines + b.spilled.length := by
  rw [lines_text h]
  obtain ⟨entries⟩ := b
  simp only [passed, unreadable, failedLines, spilled]
  clear h
  induction entries with
  | nil => rfl
  | cons e rest ih =>
    have hmeant := e.length_rows
    have hfile := Entry.length_pieces_indented e.errors
    have hsum : (((e :: rest).filter Entry.failed).map fun e => 1 + e.errors.length).sum
        = (if e.failed then 1 + e.errors.length else 0)
          + ((rest.filter Entry.failed).map fun e => 1 + e.errors.length).sum := by
      rw [List.filter_cons]
      split
      · rw [List.map_cons, List.sum_cons]
      · rw [Nat.zero_add]
    rw [List.flatMap_cons, List.flatMap_cons, List.length_append, List.length_append, ih, hsum,
      List.length_cons, hfile, Entry.spilled, List.countP_cons, List.countP_cons]
    omega

/-- How many lines begin with a word with which no message begins. -/
theorem countP_lines {b : Batch} {word : String} {p : Entry → Bool}
    (h : ∀ e ∈ b.entries, OneLine e.verdict) (hlength : word.toList.length = 6)
    (hword : word ≠ "      ") (hp : ∀ e : Entry, begins word e.verdict = p e) :
    (lines b.text).countP (begins word)
      = b.entries.countP p + b.spilled.countP (begins word) := by
  rw [lines_text h]
  obtain ⟨entries⟩ := b
  simp only [spilled]
  clear h
  induction entries with
  | nil => rfl
  | cons e rest ih =>
    have hfile := Entry.countP_pieces_indented hlength hword e.errors
    rw [List.flatMap_cons, List.flatMap_cons, List.countP_append, List.countP_append, ih,
      List.countP_cons, hfile, Entry.spilled, List.countP_cons, hp]
    omega

end Batch

/-! ## Where the entries of a batch come from -/

/-- Every entry of a batch is what comes of one of the paths. -/
theorem CommandLine.Request.exists_of_mem_batch {files : Snapshot} {staff : Staff} {r : Request}
    {b : Batch} (h : r.batch files staff = .ok b) {e : Entry} (he : e ∈ b.entries) :
    ∃ validator, ∃ path ∈ r.paths, Batch.check files validator path = e := by
  obtain ⟨validator, -, -, rfl⟩ := Request.batch_eq_ok_iff.mp h
  exact ⟨validator, List.mem_map.mp he⟩

/-! ## The lines of files are one line each -/

/-- A file is refused in one line if the words of the system are one. -/
theorem OpenFault.oneLine_text {why : OpenFault} (h : ∀ words, why = .other words → OneLine words) :
    OneLine why.text := by
  cases why with
  | other words => exact h words rfl
  | _ => decide

/-- Where the system has words of its own for a path, they are one line. -/
def Opened.OneLine (opened : Opened) : Prop :=
  ∀ words, opened = .refused (.other words) ∨ opened = .broken words → Text.OneLine words

theorem Chapter.oneLine_of_load {files : Snapshot} {path : RawText} {failure : Failure}
    (hpath : 10 ∉ path.bytes) (hwords : (files path).OneLine)
    (h : load files path = .error failure) : OneLine failure.message := by
  unfold load at h
  split at h
  · rename_i why hwhy
    have htext : OneLine why.text :=
      OpenFault.oneLine_text fun words heq => hwords words (.inl (heq ▸ hwhy))
    rw [← Except.error.inj h]
    show OneLine ("io error: " ++ ("open chapter JSON '" ++ path.shown ++ "': " ++ why.text))
    simp only [oneLine_append]
    exact ⟨by decide, ⟨⟨by decide, path.oneLine_shown hpath⟩, by decide⟩, htext⟩
  · rename_i words hbroken
    rw [← Except.error.inj h]
    show OneLine ("serialization error: " ++ ("parse chapter JSON: " ++ words))
    simp only [oneLine_append]
    exact ⟨by decide, by decide, hwords words (.inr hbroken)⟩
  · rename_i bytes hbytes
    unfold ofBytes at h
    split at h
    · cases h
    · rename_i fault hfault
      have htext : OneLine (fault.message .stream bytes) := Value.oneLine_of_ofBytes hfault .stream
      rw [← Except.error.inj h]
      show OneLine ("serialization error: "
        ++ ("parse chapter JSON: " ++ fault.message .stream bytes))
      simp only [oneLine_append]
      exact ⟨by decide, by decide, htext⟩

theorem Entry.oneLine_verdict {files : Snapshot} {validator : Validator} {path : RawText}
    (hpath : 10 ∉ path.bytes) (hwords : (files path).OneLine) :
    OneLine (Batch.check files validator path).verdict := by
  have hshown := path.oneLine_shown hpath
  have hlabel (e : Entry) : OneLine e.label := by
    rw [label]
    repeat' split
    all_goals decide
  refine oneLine_append.mpr ⟨hlabel _, ?_⟩
  unfold Batch.check
  split
  · rename_i chapter hload
    show OneLine (if (validator.report chapter).ok then path.shown else _)
    split
    · exact hshown
    · simp only [oneLine_append]
      exact ⟨⟨⟨hshown, by decide⟩, oneLine_repr _⟩, by decide⟩
  · rename_i failure hload
    have htext := Chapter.oneLine_of_load hpath hwords hload
    exact oneLine_append.mpr ⟨oneLine_append.mpr ⟨hshown, by decide⟩, htext⟩

/-! ## What is spilled -/

/-- **`PointsTo`** -- the path of a diagnostic of a file leads to a string of its chapter, under one
of the keys whose values are shown. -/
def Entry.PointsTo (files : Snapshot) (e : Entry) (d : Diagnostic) (s : String) : Prop :=
  ∃ chapter, Chapter.load files e.path = .ok chapter ∧ chapter.resolve? d.path = some (.string s)
    ∧ ∃ inner, ∃ key ∈ shownKeys, d.path = inner ++ [.field key]

/-- A message of a file **`Shows`** the string that its diagnostic points to -- if it says that it
shows anything, it ends with this string, and spills what the string spills. -/
def Entry.Shows (e : Entry) (files : Snapshot) : Prop :=
  ∀ d ∈ e.errors, ∀ s, e.PointsTo files d s → ∀ words ∈ showingWords, ∀ t,
    d.message = d.path.render ++ " " ++ (words ++ t) → t = s ∧ spill d.message = spill s

section Messages

variable {files : Snapshot} {validator : Validator} {path : RawText}

/-- A diagnostic of a file spills nothing, or what the string that it points to has behind its first
line break. -/
theorem Entry.spill_message {d : Diagnostic}
    (hd : d ∈ (Batch.check files validator path).errors) :
    spill d.message = []
      ∨ ∃ s, (Batch.check files validator path).PointsTo files d s ∧ spill d.message = spill s := by
  have hpath := Batch.path_check files validator path
  unfold Batch.check at hd
  split at hd
  · rename_i chapter hload
    rw [← hpath] at hload
    rcases Chapter.oneLine_or_shown (v := chapter) hd with h | ⟨s, lead, hs, hkey, hlead, hmessage⟩
    · exact .inl (spill_of_oneLine h)
    · refine .inr ⟨s, ⟨chapter, hload, hs, hkey⟩, ?_⟩
      rw [hmessage, spill_append hlead]
  · cases hd

theorem Entry.shows_check : (Batch.check files validator path).Shows files := by
  have hpath := Batch.path_check files validator path
  unfold Entry.Shows
  intro d hd s hs words hwords t hmessage
  obtain ⟨chapter, hload, hresolve, -⟩ := hs
  rw [hpath] at hload
  have htold : d ∈ (validator.report chapter).errors := by
    rw [Batch.check_eq, hload] at hd
    exact hd
  obtain rfl := Chapter.message_of_shows htold hresolve hwords hmessage
  have hplace : OneLine d.path.render :=
    Path.oneLine_render (Chapter.named_of_mem_diagnostics htold).oneLine
  have hwordsLine : ∀ words ∈ showingWords, OneLine words := by decide
  have hspace : OneLine " " := by decide
  have hlead : OneLine (d.path.render ++ " ") := oneLine_append.mpr ⟨hplace, hspace⟩
  rw [hmessage, spill_append hlead, spill_append (hwordsLine words hwords)]
  exact ⟨rfl, rfl⟩

end Messages

/-- If the strings that are pointed to are one line each, nothing is spilled. -/
theorem Batch.spilled_eq_nil {files : Snapshot} {b : Batch}
    (hspill : ∀ e ∈ b.entries, ∀ d ∈ e.errors,
      spill d.message = [] ∨ ∃ s, e.PointsTo files d s ∧ spill d.message = spill s)
    (h : ∀ e ∈ b.entries, ∀ d ∈ e.errors, ∀ s, e.PointsTo files d s → OneLine s) :
    b.spilled = [] := by
  simp only [spilled, Entry.spilled, List.flatMap_eq_nil_iff]
  intro e he d hd
  rcases hspill e he d hd with hnone | ⟨s, hs, heq⟩
  · exact hnone
  · rw [heq, spill_of_oneLine (h e he d hd s hs)]

/-- **`lines_validate`** -- what is printed of a batch as text: as many lines as are meant, and the
spilled ones besides. A spilled line comes from a string of the chapter that a diagnostic points to,
and if these strings are one line each, there are no spilled lines. A diagnostic that says `is
invalid:` or `is not supported:` and points to a string ends with this string and spills what it
spills. The paths, and what the system has to say of them, are taken to be one line each. -/
theorem CommandLine.lines_validate {files : Snapshot} {staff : Staff} {r : Request} {b : Batch}
    (hbatch : r.batch files staff = .ok b) (hformat : r.format.getD .text = .text)
    (hpaths : ∀ path ∈ r.paths, 10 ∉ path.bytes)
    (hwords : ∀ path ∈ r.paths, (files path).OneLine) :
    (lines (validate files staff r).stdout).length
        = b.passed + b.unreadable + b.failedLines + b.spilled.length
      ∧ (lines (validate files staff r).stdout).countP (begins "ok    ")
        = b.passed + b.spilled.countP (begins "ok    ")
      ∧ (lines (validate files staff r).stdout).countP (begins "FAIL  ")
        = b.failed + b.spilled.countP (begins "FAIL  ")
      ∧ (lines (validate files staff r).stdout).countP (begins "ERROR ")
        = b.unreadable + b.spilled.countP (begins "ERROR ")
      ∧ (∀ e ∈ b.entries, ∀ d ∈ e.errors,
        spill d.message = [] ∨ ∃ s, e.PointsTo files d s ∧ spill d.message = spill s)
      ∧ (∀ e ∈ b.entries, e.Shows files)
      ∧ ((∀ e ∈ b.entries, ∀ d ∈ e.errors, ∀ s, e.PointsTo files d s → OneLine s) →
        b.spilled = []) := by
  have hstdout : (validate files staff r).stdout = b.text := by
    rw [validate, hbatch]
    show (printed (r.format.getD .text) b).stdout = b.text
    rw [hformat]
    rfl
  have hverdict : ∀ e ∈ b.entries, OneLine e.verdict := by
    intro e he
    obtain ⟨validator, path, hpath, rfl⟩ := Request.exists_of_mem_batch hbatch he
    exact Entry.oneLine_verdict (hpaths path hpath) (hwords path hpath)
  have hspill : ∀ e ∈ b.entries, ∀ d ∈ e.errors,
      spill d.message = [] ∨ ∃ s, e.PointsTo files d s ∧ spill d.message = spill s := by
    intro e he d hd
    obtain ⟨validator, path, -, rfl⟩ := Request.exists_of_mem_batch hbatch he
    exact Entry.spill_message hd
  have hshows : ∀ e ∈ b.entries, e.Shows files := by
    intro e he
    obtain ⟨validator, path, -, rfl⟩ := Request.exists_of_mem_batch hbatch he
    exact Entry.shows_check
  rw [hstdout]
  refine ⟨Batch.length_lines hverdict, ?_, ?_, ?_, hspill, hshows, Batch.spilled_eq_nil hspill⟩
  · exact Batch.countP_lines hverdict (by decide) (by decide) Entry.begins_ok
  · exact Batch.countP_lines hverdict (by decide) (by decide) Entry.begins_fail
  · exact Batch.countP_lines hverdict (by decide) (by decide) Entry.begins_error

/-- A chapter whose only block has a type that goes on in a line like that of a file in order. -/
def forgedText : String :=
  "\x7b\"blocks\":[\x7b\"type\":\"\\nok    b.json\"\x7d]\x7d"

/-- A snapshot in which every path leads to that chapter. -/
def forgedFiles : Snapshot :=
  fun _ => .content (Utf8.bytes forgedText)

/-- The batch of that chapter alone. -/
def forgedBatch : Batch :=
  ⟨[Batch.check forgedFiles .standard (.ofString "a.json")]⟩

namespace CommandLine

/-- The request for that chapter alone. -/
def forgedRequest : Request :=
  { paths := [.ofString "a.json"] }

theorem batch_forgedRequest (staff : Staff) :
    forgedRequest.batch forgedFiles staff = .ok forgedBatch :=
  rfl

/-- One line is spilled, by the type of the block. -/
theorem lines_validate_forged :
    forgedBatch.spilled = ["ok    b.json"]
      ∧ (lines (validate forgedFiles anyStaff forgedRequest).stdout).length
        = forgedBatch.passed + forgedBatch.unreadable + forgedBatch.failedLines
          + forgedBatch.spilled.length
      ∧ (lines (validate forgedFiles anyStaff forgedRequest).stdout).countP (begins "ok    ")
        = forgedBatch.passed + forgedBatch.spilled.countP (begins "ok    ") := by
  have hspilled : forgedBatch.spilled = ["ok    b.json"] := by decide +kernel
  have hpaths : ∀ path ∈ forgedRequest.paths, 10 ∉ path.bytes := by decide
  have hwords : ∀ path ∈ forgedRequest.paths, (forgedFiles path).OneLine := by
    rintro path - words (h | h) <;> cases h
  have hlines := lines_validate (batch_forgedRequest anyStaff) rfl hpaths hwords
  exact ⟨hspilled, hlines.1, hlines.2.1⟩

/-- No file is in order, and yet a line is printed that says so. -/
theorem exists_forged_line :
    forgedRequest.batch forgedFiles anyStaff = .ok forgedBatch
      ∧ (∀ path ∈ forgedRequest.paths, 10 ∉ path.bytes) ∧ forgedBatch.passed = 0
      ∧ (lines (validate forgedFiles anyStaff forgedRequest).stdout).countP (begins "ok    ") = 1
      ∧ (lines (validate forgedFiles anyStaff forgedRequest).stdout).length
        = forgedBatch.passed + forgedBatch.unreadable + forgedBatch.failedLines + 1 := by
  refine ⟨batch_forgedRequest anyStaff, by decide, ?_, ?_, ?_⟩
  · decide +kernel
  · decide +kernel
  · decide +kernel

end CommandLine

end ChapterCheck
