/-
# ChapterCheck.Proofs.Order -- a report follows the document

The diagnostics of a report are in the order of the document. The main statement is
`Validator.errors_inOrder`: the header comes before the blocks; and where the paths of two
diagnostics part, they part by two fields or by two elements of an array, of which the earlier one
comes first. The one exception are the marks of a run in the quote of an engine, which are told of
in two rounds.

That the exception goes no further is read off the findings (`Finding.Before.parting`): where a
later element comes first, the other diagnostic is one of the restriction, and so its run is quoted.
-/
import ChapterCheck.Proofs.Founded
import ChapterCheck.Proofs.QuotedRuns

namespace ChapterCheck

open Json Grammar

/-! ## Where places part -/

/-- Where the places of two findings part, they do so in the order of the document, or at the marks
of one run, of which the restriction speaks last. -/
theorem Finding.Before.parting {f g : Finding} {common : Path} {a b : Step} (h : f.Before g)
    (hpart : Path.PartAt common a b f.place g.place) (hne : a ≠ b) :
    a.Precedes b ∨ ∃ run i j, common = run ++ [.field "marks"] ∧ a = .index i ∧ b = .index j
      ∧ g = .defect (run ++ [.field "marks", .index j, .field "type"])
        (.markNotAllowed Run.quotedMarks) := by
  have happart := hpart.apart hne
  cases h with
  | apart hprecedes => exact .inl (hprecedes.at_parting hpart hne)
  | header => exact absurd List.prefix_rfl happart.1
  | widget => exact absurd (List.prefix_append _ _) happart.2
  | again => exact absurd List.prefix_rfl happart.1
  | @late run rest i j what hlt =>
    have hmarks : Path.PartAt (run ++ [.field "marks"]) (.index i) (.index j)
        (run ++ .field "marks" :: .index i :: rest)
        (run ++ [.field "marks", .index j, .field "type"]) := by
      constructor <;> simp
    have hij : Step.index i ≠ .index j := by
      intro heq
      exact Nat.ne_of_gt hlt (Step.index.inj heq)
    obtain ⟨rfl, rfl, rfl⟩ := hpart.unique hne hmarks hij
    exact .inr ⟨run, i, j, rfl, rfl, rfl, rfl⟩

/-- What is invalid at the type of a mark is so in a quoted run. -/
theorem Founded.exists_quotedRun {limit j : Nat} {v : Value} {run : Path}
    (h : Founded limit v .invalidValue (run ++ [.field "marks", .index j, .field "type"])) :
    ∃ w, Stands v (.run true) run w := by
  generalize hpath : run ++ [.field "marks", .index j, .field "type"] = path at h
  have snoc : run ++ [.field "marks", .index j, .field "type"]
      = run ++ [.field "marks", .index j] ++ [.field "type"] := by
    rw [List.append_assoc]
    rfl
  rw [snoc] at hpath
  -- The other fields that may be invalid have other names.
  have other {place : Path} {key : String} (hkey : "type" ≠ key)
      (heq : run ++ [.field "marks", .index j] ++ [.field "type"] = place ++ [.field key]) :
      ∃ w, Stands v (.run true) run w := by
    have hlast := (List.append_inj' heq rfl).2
    simp only [List.cons.injEq, Step.field.injEq, and_true] at hlast
    exact absurd hlast hkey
  cases h with
  | engine => exact other (by decide) hpath
  | listType => exact other (by decide) hpath
  | tone => exact other (by decide) hpath
  | quotedMark hstands =>
    obtain ⟨rfl, -⟩ := List.append_inj' hpath rfl
    generalize hplace : run ++ [.field "marks", .index j] = place at hstands
    cases hstands with
    | step habove hleads =>
      cases hleads with
      | run =>
        obtain ⟨rfl, -⟩ := List.append_inj' hplace rfl
        exact ⟨_, habove⟩
  | quotedType hstands =>
    obtain ⟨rfl, -⟩ := List.append_inj' hpath rfl
    generalize hplace : run ++ [.field "marks", .index j] = place at hstands
    cases hstands with
    | step habove hleads =>
      cases hleads with
      | engineQuote =>
        have hlast := (List.append_inj' hplace rfl).2
        simp at hlast

/-! ## Reports in order -/

/-- **`InOrder`** -- one diagnostic of a chapter comes before another one. -/
structure Diagnostic.InOrder (v : Value) (d e : Diagnostic) : Prop where
  /-- What is told of blocks is not followed by what is told of the header. -/
  header : [.field "blocks"] <+: d.path → ¬[.field "chapter"] <+: e.path
  /-- No path goes on by an element where another one goes on by a field. -/
  alike : ∀ common i name, ¬Path.PartAt common (.index i) (.field name) d.path e.path
    ∧ ¬Path.PartAt common (.field name) (.index i) d.path e.path
  /-- Where the paths part by two elements, the earlier one comes first, unless the elements are
  marks of a quoted run. -/
  elements : ∀ common i j, i ≠ j → Path.PartAt common (.index i) (.index j) d.path e.path →
    i < j ∨ ∃ run w, Stands v (.run true) run w ∧ common = run ++ [.field "marks"]
  /-- Of the marks of a quoted run, the diagnostics of the contract come first and those of the
  restriction behind them, and each of these in the order of the marks. -/
  rounds : ∀ run w, Stands v (.run true) run w → d.InRounds run e

/-- Where the paths of two diagnostics part. -/
theorem Diagnostic.Before.parting {limit : Nat} {v : Value} {d e : Diagnostic} {common : Path}
    {a b : Step} (h : d.Before e) (he : e ∈ Chapter.diagnostics limit v)
    (hpart : Path.PartAt common a b d.path e.path) (hne : a ≠ b) :
    a.Precedes b ∨ ∃ run w i j, Stands v (.run true) run w ∧ common = run ++ [.field "marks"]
      ∧ a = .index i ∧ b = .index j := by
  obtain ⟨what, what', -, htold, hbefore⟩ := h
  rcases hbefore.parting hpart hne with hprecedes | ⟨run, i, j, hcommon, ha, hb, heq⟩
  · exact .inl hprecedes
  · have hfounded := Chapter.founded_of_mem_diagnostics e he
    obtain ⟨hpath, rfl⟩ := Finding.defect.inj heq
    have hkind : e.kind = .invalidValue := congrArg Diagnostic.kind htold
    rw [hkind, hpath] at hfounded
    obtain ⟨w, hw⟩ := hfounded.exists_quotedRun
    exact .inr ⟨run, w, i, j, hw, hcommon, ha, hb⟩

/-- The header comes before the blocks. -/
theorem Chapter.pairwise_header (limit : Nat) (v : Value) :
    (diagnostics limit v).Pairwise fun d e =>
      [.field "blocks"] <+: d.path → ¬[.field "chapter"] <+: e.path := by
  obtain ⟨header, blocks, hsplit⟩ := exists_split limit v
  rw [hsplit.eq, List.pairwise_append]
  refine ⟨?_, ?_, ?_⟩
  · refine List.pairwise_of_forall_mem_list fun d hd e _ hblocks => ?_
    exact absurd (hsplit.under_chapter d hd) (not_chapter_of_blocks hblocks)
  · refine List.pairwise_of_forall_mem_list fun d _ e he _ => ?_
    exact not_chapter_of_blocks (hsplit.under_blocks e he)
  · intro d hd e _ hblocks
    exact absurd (hsplit.under_chapter d hd) (not_chapter_of_blocks hblocks)

/-- **`errors_inOrder`** -- the diagnostics of a report are in the order of the document. -/
theorem Validator.errors_inOrder (validator : Validator) (v : Value) :
    (validator.report v).errors.Pairwise (Diagnostic.InOrder v) := by
  have hbefore := Chapter.pairwise_before validator.limit v
  have hheader := Chapter.pairwise_header validator.limit v
  rw [List.pairwise_iff_forall_sublist] at hbefore hheader ⊢
  intro d e hsublist
  have he : e ∈ Chapter.diagnostics validator.limit v := hsublist.subset (by simp)
  refine ⟨hheader hsublist, ?_, ?_, ?_⟩
  · intro common i name
    constructor
    · intro hpart
      rcases (hbefore hsublist).parting he hpart nofun with hprecedes | ⟨_, _, _, _, -, -, -, hb⟩
      · exact hprecedes
      · cases hb
    · intro hpart
      rcases (hbefore hsublist).parting he hpart nofun with hprecedes | ⟨_, _, _, _, -, -, ha, -⟩
      · exact hprecedes
      · cases ha
  · intro common i j hne hpart
    have hsteps : Step.index i ≠ .index j := fun heq => hne (Step.index.inj heq)
    rcases (hbefore hsublist).parting he hpart hsteps with hprecedes
      | ⟨run, w, _, _, hw, hcommon, -⟩
    · exact .inl hprecedes
    · exact .inr ⟨run, w, hw, hcommon⟩
  · intro run w hw
    have hrounds : (Chapter.diagnostics validator.limit v).Pairwise (Diagnostic.InRounds run) :=
      Chapter.inRounds hw
    exact List.pairwise_iff_forall_sublist.mp hrounds hsublist

/-- The quote of an engine with two marks: one that is not allowed there, and one that is none. -/
def markedQuote : Value :=
  .object
    [("blocks", .array
      [.object
        [("blocks", .array
          [.object
            [("inlines", .array
              [.object
                [("marks", .array [.object [("type", .string "code")], .null]),
                  ("text", .string "t")]]),
              ("type", .string "paragraph")]]),
          ("engine", .string "media"), ("title", .string "Media Agent"),
          ("type", .string "engineQuote")]])]

/-- Behind the header fields that are missed, the later mark is told of first. -/
example : ((Chapter.diagnostics 1 markedQuote).drop 4).map (fun d => (d.kind, d.path.render))
    = [(.wrongShape, "blocks[0].blocks[0].inlines[0].marks[1]"),
      (.invalidValue, "blocks[0].blocks[0].inlines[0].marks[0].type")] := by
  decide

end ChapterCheck
