/-
# ChapterCheck.Proofs.Distinct -- no defect is told twice

No two diagnostics of a report are of one kind at one path, and no two have the same message. The
main statement is `Validator.errors_distinct`.

A message gives away its place: the written path is its first word, or the second one behind the
word `missing` (`Message.place`), for there is no blank in a written path and no path is written as
that word. So messages that are the same are of one path, and there they are told apart by what they
go on with.
-/
import ChapterCheck.Proofs.Names
import ChapterCheck.Proofs.Rendering
import ChapterCheck.Proofs.Sequence

namespace ChapterCheck

open Json

/-! ## The place of a message -/

/-- **`place`** -- the written path that a message is about: its first word, or what stands behind
the word `missing`. -/
def Message.place (message : String) : String :=
  if message.toList.takeWhile (· ≠ ' ') = "missing".toList then
    String.ofList (message.toList.drop "missing ".length)
  else
    String.ofList (message.toList.takeWhile (· ≠ ' '))

/-- The first word of a text ends where the first blank stands. -/
theorem takeWhile_word {word : List Char} (h : ' ' ∉ word) (rest : List Char) :
    (word ++ ' ' :: rest).takeWhile (· ≠ ' ') = word := by
  have hword : ∀ c ∈ word, decide (c ≠ ' ') = true := by
    intro c hc
    exact decide_eq_true fun heq => h (heq ▸ hc)
  rw [List.takeWhile_append_of_pos hword, List.takeWhile_cons_of_neg (by decide), List.append_nil]

theorem toList_missing (written : String) :
    ("missing " ++ written).toList = "missing".toList ++ ' ' :: written.toList := by
  rw [String.toList_append]
  rfl

theorem toList_first (written rest : String) :
    (written ++ " " ++ rest).toList = written.toList ++ ' ' :: rest.toList := by
  rw [String.toList_append, String.toList_append, List.append_assoc]
  rfl

theorem Message.place_missing (written : String) : place ("missing " ++ written) = written := by
  have hfirst : ("missing " ++ written).toList.takeWhile (· ≠ ' ') = "missing".toList := by
    rw [toList_missing]
    exact takeWhile_word (by decide) written.toList
  rw [place, if_pos hfirst, toList_missing]
  exact String.ofList_toList

theorem Message.place_of_first {written : String} (hblank : ' ' ∉ written.toList)
    (hne : written ≠ "missing") (rest : String) : place (written ++ " " ++ rest) = written := by
  have hmissing : written.toList ≠ "missing".toList := fun heq => hne (String.toList_inj.mp heq)
  rw [place, toList_first, takeWhile_word hblank, if_neg hmissing, String.ofList_toList]

/-! ## The paths of diagnostics -/

namespace Path.Named

variable {p q : Path}

theorem plain (h : p.Named) : p.Plain := by
  have hnames : ∀ name ∈ contractNames, name ≠ "" ∧ '.' ∉ name.toList ∧ '[' ∉ name.toList := by
    decide
  exact fun name hname => hnames name (h name hname)

/-- There is no blank in the written path. -/
theorem blank_not_mem_render (h : p.Named) : ' ' ∉ p.render.toList := by
  have hnames : ∀ name ∈ contractNames, ' ' ∉ name.toList := by decide
  exact not_mem_render (by decide) (by decide) fun name hname => hnames name (h name hname)

/-- No path is written as the word that a header field is missed with. -/
theorem render_ne_missing (h : p.Named) : p.render ≠ "missing" := by
  have hplain : Plain [.field "missing"] := by
    simp only [Plain, List.mem_singleton, Step.field.injEq, forall_eq]
    decide
  intro heq
  obtain rfl := render_injective h.plain hplain heq
  exact absurd (h "missing" List.mem_cons_self) (by decide)

end Path.Named

/-! ## How diagnostics are told -/

/-- A diagnostic of a chapter misses a header field, or it begins with its place; then it lies under
the blocks, unless it is a matter of shape. -/
theorem Chapter.told_cases {limit : Nat} {v : Value} {d : Diagnostic}
    (hd : d ∈ diagnostics limit v) :
    (∃ key ∈ header, d = Defect.headerAbsent.diagnostic [.field "chapter", .field key])
      ∨ ∃ what : Defect, d = what.diagnostic d.path ∧ what ≠ .headerAbsent
        ∧ ([.field "blocks"] <+: d.path ∨ d.kind = .wrongShape) := by
  obtain ⟨f, hf, htold⟩ := List.mem_flatMap.mp hd
  have of_shape {place : Path} {demanded : Shape} (heq : f = .defect place (.shape demanded)) :
      ∃ what : Defect, d = what.diagnostic d.path ∧ what ≠ .headerAbsent
        ∧ ([.field "blocks"] <+: d.path ∨ d.kind = .wrongShape) := by
    rw [heq, Finding.diagnose_defect, List.mem_singleton] at htold
    rw [htold]
    exact ⟨.shape demanded, rfl, nofun, .inr rfl⟩
  cases v with
  | object chapter =>
    rcases List.mem_append.mp hf with hf | hf
    · obtain ⟨missed, hmissed, rfl⟩ := Survey.mem_under.mp hf
      obtain ⟨key, hkey, rfl⟩ := mem_headerSurvey hmissed
      rw [Finding.diagnose_under, Finding.diagnose_defect, List.mem_singleton] at htold
      exact .inl ⟨key, hkey, htold⟩
    · have hplain := plain_blocksSurvey chapter f hf
      obtain ⟨what, hwhat, hne⟩ := Finding.exists_defect_of_mem_diagnose htold
      rcases blocksSurvey_cases chapter with ⟨items, -, -, heq⟩ | ⟨-, heq⟩
      · rw [heq] at hf
        obtain ⟨g, -, rfl⟩ := Survey.mem_under.mp hf
        have hunder : [.field "blocks"] <+: d.path := by
          rw [Finding.diagnose_under] at htold
          exact (List.prefix_append _ _).trans (Finding.prefix_of_mem_diagnose htold)
        exact .inr ⟨what, hwhat, hne hplain, .inl hunder⟩
      · rw [heq] at hf
        exact .inr (of_shape (List.mem_singleton.mp hf))
  | _ => exact .inr (of_shape (List.mem_singleton.mp hf))

/-- What is told of a mark that is not in the vocabulary is not what is told of one that is not
allowed. -/
theorem Defect.clause_unsupported_ne (value : Option Value) :
    (unsupported value).clause.toList ≠ (markNotAllowed Run.quotedMarks).clause.toList := by
  have hclause : (unsupported value).clause.toList
      = "is not supported: ".toList ++ (shown value).toList := String.toList_append
  have hlead : "is not supported: ".toList = 'i' :: "s not supported: ".toList := by decide
  have honly : (markNotAllowed Run.quotedMarks).clause.toList
      = 'o' :: "nly bold/italic are allowed".toList := by decide
  rw [hclause, hlead, honly]
  intro heq
  exact absurd (List.cons.inj heq).1 (by decide)

namespace Chapter

variable {limit : Nat} {v : Value} {d e : Diagnostic}

/-- A message says that a header field is missing, or it begins with the path. -/
theorem message_cases (hd : d ∈ diagnostics limit v) :
    d.message = "missing " ++ d.path.render ∨ ∃ rest, d.message = d.path.render ++ " " ++ rest := by
  rcases told_cases hd with ⟨key, -, rfl⟩ | ⟨what, hwhat, hne, -⟩
  · exact .inl rfl
  · have hmessage : d.message = what.message d.path := congrArg Diagnostic.message hwhat
    exact .inr ⟨what.clause, hmessage.trans (what.message_eq hne d.path)⟩

/-- **`place_message`** -- the path is read back from the message. -/
theorem place_message (hd : d ∈ diagnostics limit v) :
    Message.place d.message = d.path.render := by
  have hnamed := named_of_mem_diagnostics hd
  rcases message_cases hd with hmessage | ⟨rest, hmessage⟩
  · rw [hmessage, Message.place_missing]
  · rw [hmessage, Message.place_of_first hnamed.blank_not_mem_render hnamed.render_ne_missing]

/-- The messages that begin with the word are those of the header. -/
theorem message_eq_missing_iff (hd : d ∈ diagnostics limit v) :
    d.message = "missing " ++ d.path.render ↔ d.kind = .missingField
      ∧ ∃ key ∈ ["chapterId", "title", "anchor", "order", "blocks"],
        d.path = [.field "chapter", .field key] := by
  rcases told_cases hd with ⟨key, hkey, rfl⟩ | ⟨what, hwhat, hne, hcases⟩
  · exact ⟨fun _ => ⟨rfl, key, hkey, rfl⟩, fun _ => rfl⟩
  · constructor
    · intro hmissing
      have hnamed := named_of_mem_diagnostics hd
      have hmessage : d.message = what.message d.path := congrArg Diagnostic.message hwhat
      rw [what.message_eq hne, hmissing] at hmessage
      -- Then the path would be written as the first word of the message.
      have hfirst := congrArg (fun s : String => s.toList.takeWhile (· ≠ ' ')) hmessage
      simp only [toList_missing, toList_first] at hfirst
      rw [takeWhile_word (by decide), takeWhile_word hnamed.blank_not_mem_render] at hfirst
      exact absurd (String.toList_inj.mp hfirst).symm hnamed.render_ne_missing
    · rintro ⟨hkind, key, -, hpath⟩
      rcases hcases with hblocks | hshape
      · have hchapter : [.field "chapter"] <+: d.path := hpath ▸ List.prefix_append [_] [_]
        exact absurd hchapter (not_chapter_of_blocks hblocks)
      · exact absurd (hkind.symm.trans hshape) nofun

/-- Diagnostics whose messages are the same are at one path. -/
theorem path_eq_of_message_eq (hd : d ∈ diagnostics limit v) (he : e ∈ diagnostics limit v)
    (h : d.message = e.message) : d.path = e.path := by
  have hplace := congrArg Message.place h
  rw [place_message hd, place_message he] at hplace
  exact Path.render_injective (named_of_mem_diagnostics hd).plain
    (named_of_mem_diagnostics he).plain hplace

/-- Two diagnostics at one path are not of one kind. -/
theorem kind_ne_of_path_eq (h : d.Before e) (hpath : d.path = e.path) : d.kind ≠ e.kind := by
  rcases h.place_cases with happart | ⟨place, rfl, rfl⟩ | ⟨place, value, rfl, rfl⟩
    | ⟨place, key, -, rfl, rfl⟩
  · exact absurd (hpath ▸ List.prefix_rfl) happart.1
  · exact nofun
  · exact nofun
  · exact absurd hpath (by simp)

/-- So what is told is told once. -/
theorem nodup_told (limit : Nat) (v : Value) :
    ((diagnostics limit v).map fun d => (d.kind, d.path)).Nodup := by
  refine List.pairwise_map.mpr ((pairwise_before limit v).imp ?_)
  intro d e hbefore heq
  obtain ⟨hkind, hpath⟩ := Prod.mk.inj heq
  exact kind_ne_of_path_eq hbefore hpath hkind

/-- Two diagnostics do not have the same message. -/
theorem message_ne (hd : d ∈ diagnostics limit v) (he : e ∈ diagnostics limit v)
    (h : d.Before e) : d.message ≠ e.message := by
  intro heq
  have hpath := path_eq_of_message_eq hd he heq
  rcases h.place_cases with happart | ⟨place, rfl, rfl⟩ | ⟨place, value, rfl, rfl⟩
    | ⟨place, key, -, rfl, rfl⟩
  · exact absurd (hpath ▸ List.prefix_rfl) happart.1
  · -- The header field that is missed is told the other way round.
    have hshape := (message_eq_missing_iff he).mp heq.symm
    exact absurd hshape.1 nofun
  · have hne : Defect.unsupported value ≠ .headerAbsent := nofun
    have hne' : Defect.markNotAllowed Run.quotedMarks ≠ .headerAbsent := nofun
    have hclause := ((Defect.message_eq hne place).symm.trans heq).trans
      (Defect.message_eq hne' place)
    rw [← String.toList_inj, toList_first, toList_first] at hclause
    have hrest := (List.cons.inj (List.append_cancel_left hclause)).2
    exact Defect.clause_unsupported_ne value hrest
  · exact absurd hpath (by simp)

end Chapter

/-! ## Reports -/

/-- **`Distinct`** -- the diagnostics of a chapter are told apart, by what they are and by what they
say. -/
structure Chapter.Distinct (errors : List Diagnostic) : Prop where
  /-- No two are of one kind at one path. -/
  kinds : (errors.map fun d => (d.kind, d.path)).Nodup
  /-- No two have the same message. -/
  messages : (errors.map Diagnostic.message).Nodup
  /-- There is no blank in a written path. -/
  blank : ∀ d ∈ errors, ' ' ∉ d.path.render.toList
  /-- A message says that something is missing, or it begins with the path. -/
  told : ∀ d ∈ errors,
    d.message = "missing " ++ d.path.render ∨ ∃ rest, d.message = d.path.render ++ " " ++ rest
  /-- It is the former for the fields of the header alone. -/
  missing : ∀ d ∈ errors, d.message = "missing " ++ d.path.render ↔ d.kind = .missingField
    ∧ ∃ key ∈ ["chapterId", "title", "anchor", "order", "blocks"],
      d.path = [.field "chapter", .field key]
  /-- The written path is read back from the message. -/
  read : ∀ d ∈ errors, Message.place d.message = d.path.render
  /-- And the path from the written path. -/
  render : ∀ d ∈ errors, ∀ e ∈ errors, d.path.render = e.path.render → d.path = e.path

/-- **`errors_distinct`** -- the diagnostics of a report are told apart. -/
theorem Validator.errors_distinct (validator : Validator) (v : Value) :
    Chapter.Distinct (validator.report v).errors where
  kinds := Chapter.nodup_told validator.limit v
  messages := by
    refine List.pairwise_map.mpr ((Chapter.pairwise_before validator.limit v).imp_of_mem ?_)
    exact fun hd he hbefore => Chapter.message_ne hd he hbefore
  blank _ hd := (Chapter.named_of_mem_diagnostics hd).blank_not_mem_render
  told _ hd := Chapter.message_cases hd
  missing _ hd := Chapter.message_eq_missing_iff hd
  read _ hd := Chapter.place_message hd
  render _ hd _ he := Path.render_injective (Chapter.named_of_mem_diagnostics hd).plain
    (Chapter.named_of_mem_diagnostics he).plain

end ChapterCheck
