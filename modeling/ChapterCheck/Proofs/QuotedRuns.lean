/-
# ChapterCheck.Proofs.QuotedRuns -- what is told of a run in the quote of an engine

The marks of a quoted run are looked at twice: the contract comes first and the restriction behind
it. So what is told of them is in two rounds, and each round is in the order of the marks
(`Run.marksInOrder`).

All that is told of the run stands in a row, so no other diagnostic comes between the two rounds.
`Encloses` says that a survey has a part in one piece, with nothing else at or under the same steps;
it leads from the block that is a quote to its runs, and the walk leads to the block
(`Chapter.pairwise_run`).
-/
import ChapterCheck.Proofs.Frame
import ChapterCheck.Proofs.Sequence

namespace ChapterCheck

open Json Grammar

/-! ## Parts in one piece -/

/-- **`Encloses`** -- a survey has a part in one piece, and all else that it finds is apart from the
steps that lead to the part. -/
def Survey.Encloses (steps : Path) (part s : Survey) : Prop :=
  ∃ before after, s = before ++ Survey.under steps part ++ after
    ∧ ∀ f ∈ before ++ after, Path.Apart steps f.place

namespace Survey

variable {steps : Path} {part s : Survey} {owner : Members} {key : String} {i : Nat} {u : Value}
  {check : Value → Survey}

theorem Encloses.under (base : Path) (h : Encloses steps part s) :
    Encloses (base ++ steps) part (Survey.under base s) := by
  obtain ⟨before, after, rfl, hother⟩ := h
  refine ⟨Survey.under base before, Survey.under base after, ?_, ?_⟩
  · rw [under_append, under_append, under_under]
  · intro f hf
    rw [← under_append] at hf
    obtain ⟨g, hg, rfl⟩ := mem_under.mp hf
    rw [Finding.place_under]
    exact Path.apart_append_iff.mpr (hother g hg)

theorem Encloses.append_left {t : Survey} (ht : ∀ f ∈ t, Path.Apart steps f.place)
    (h : Encloses steps part s) : Encloses steps part (t ++ s) := by
  obtain ⟨before, after, rfl, hother⟩ := h
  refine ⟨t ++ before, after, by simp only [List.append_assoc], ?_⟩
  rw [List.append_assoc, List.forall_mem_append]
  exact ⟨ht, hother⟩

/-- A part of a part is a part. -/
theorem Encloses.trans {outer : Path} {mid : Survey} (h : Encloses steps part mid)
    (hmid : Encloses outer mid s) : Encloses (outer ++ steps) part s := by
  obtain ⟨before, after, heq, hother⟩ := h.under outer
  obtain ⟨first, last, rfl, houter⟩ := hmid
  refine ⟨first ++ before, after ++ last, by simp only [heq, List.append_assoc], ?_⟩
  -- What is apart from the outer part is apart from what lies within it.
  have hbeyond : ∀ f ∈ first ++ last, Path.Apart (outer ++ steps) f.place :=
    fun f hf => (houter f hf).extend (List.prefix_append outer steps) List.prefix_rfl
  simp only [List.forall_mem_append] at hother hbeyond ⊢
  exact ⟨⟨hbeyond.1, hother.1⟩, hother.2, hbeyond.2⟩

theorem encloses_each {items : List Value} (hu : items[i]? = some u) :
    Encloses [.index i] (check u) (each check items) := by
  obtain ⟨hlt, rfl⟩ := List.getElem?_eq_some_iff.mp hu
  have hlength : (items.take i).length = i := List.length_take_of_le (Nat.le_of_lt hlt)
  have hitems : items = items.take i ++ items[i] :: items.drop (i + 1) := by
    rw [← List.drop_eq_getElem_cons hlt, List.take_append_drop]
  have hsplit := each_append_cons check (items.take i) items[i] (items.drop (i + 1))
  rw [hlength, ← hitems] at hsplit
  refine ⟨_, _, hsplit, ?_⟩
  have apart_of_index {j : Nat} (hne : i ≠ j) (g : Finding) :
      Path.Apart [.index i] (g.under [.index j]).place := by
    rw [Finding.place_under]
    exact Path.apart_of_ne (fun heq => hne (Step.index.inj heq)) [] g.place
  intro f hf
  rcases List.mem_append.mp hf with hf | hf
  · obtain ⟨j, v, hv, g, -, rfl⟩ := mem_each.mp hf
    have hj : j < (items.take i).length := (List.getElem?_eq_some_iff.mp hv).1
    exact apart_of_index (by omega) g
  · obtain ⟨⟨v, j⟩, hv, hf⟩ := List.mem_flatMap.mp hf
    obtain ⟨g, -, rfl⟩ := mem_under.mp hf
    have hj : i + 1 ≤ j := List.le_snd_of_mem_zipIdx hv
    exact apart_of_index (by omega) g

theorem encloses_filled (hu : (Value.object owner).resolve? [.field key, .index i] = some u) :
    Encloses [.field key, .index i] (check u) (filled owner key check) := by
  obtain ⟨_, items, ⟨⟩, hget, hi⟩ := exists_items_of_resolve? hu
  have hne : items ≠ [] := List.ne_nil_of_mem (List.mem_of_getElem? hi)
  rw [filled_of_ne_nil hget hne]
  exact (encloses_each hi).under [.field key]

/-- What is told of a part is isolated in what is told of the whole. -/
theorem Encloses.isolated (h : Encloses steps part s) (limit room : Nat) (base : Path) :
    Isolated (base ++ steps) (part.diagnose limit room (base ++ steps))
      (s.diagnose limit room base) := by
  obtain ⟨before, after, rfl, hother⟩ := h
  refine ⟨Survey.diagnose limit room base before, Survey.diagnose limit room base after, ?_, ?_, ?_⟩
  · rw [diagnose_append, diagnose_append, diagnose_under]
  · intro d hd
    obtain ⟨f, -, hd⟩ := List.mem_flatMap.mp hd
    exact (List.prefix_append _ _).trans (Finding.prefix_of_mem_diagnose hd)
  · intro d hd
    rw [← diagnose_append] at hd
    obtain ⟨f, hf, hd⟩ := List.mem_flatMap.mp hd
    have happart : Path.Apart (base ++ steps) (base ++ f.place) :=
      Path.apart_append_iff.mpr (hother f hf)
    exact (happart.extend List.prefix_rfl (Finding.prefix_of_mem_diagnose hd)).1

end Survey

/-! ## The way to a quoted run -/

/-- A quote of an engine has what it finds of a paragraph in one piece. -/
theorem Block.encloses_quotedBlock {block : Members} {i : Nat} {u : Value}
    (hnamed : Named block "engineQuote")
    (hu : (Value.object block).resolve? [.field "blocks", .index i] = some u) :
    Survey.Encloses [.field "blocks", .index i] (quotedParagraph u) (survey (.object block)) := by
  have hkind : survey (.object block) = contract block .engineQuote := survey_of_named hnamed
  rw [hkind]
  have hhead := (ordered_engineSurvey block).append
    (ordered_titleSurvey (engine? block) (block.get? "title")) (by decide)
  refine (Survey.encloses_filled hu).append_left fun f hf => ?_
  -- The engine and the title are told of other fields.
  obtain ⟨key, hkey, hplace⟩ := hhead.keyed f hf
  have hne : "blocks" ≠ key := by
    rintro rfl
    exact absurd hkey (by decide)
  have happart : Path.Apart [.field "blocks", .index i] [.field key] :=
    Path.apart_of_ne (fun heq => hne (Step.field.inj heq)) _ _
  exact happart.extend List.prefix_rfl hplace

theorem Block.encloses_quotedRun {block : Members} {i : Nat} {w : Value}
    (hnamed : Named block "paragraph")
    (hw : (Value.object block).resolve? [.field "inlines", .index i] = some w) :
    Survey.Encloses [.field "inlines", .index i] (Run.quotedSurvey w)
      (quotedParagraph (.object block)) := by
  rw [quotedParagraph_of_named hnamed]
  exact Survey.encloses_filled hw

/-- A quoted run stands in a block, which has what it finds of the run in one piece. -/
theorem Stands.quotedRun_cases {v w : Value} {place : Path} (h : Stands v (.run true) place w) :
    ∃ level outer b inner, Stands v (.block level) outer b ∧ place = outer ++ inner ∧ inner ≠ []
      ∧ Survey.Encloses inner (Run.quotedSurvey w) (Block.survey b) := by
  cases h with
  | step hstands hleads hw =>
    cases hleads with
    | quotedParagraph hparagraph =>
      cases hstands with
      | step hstands hleads hquoted =>
        cases hleads with
        | engineQuote hquote =>
          have hparagraph := Block.encloses_quotedRun hparagraph hw
          have hquote := Block.encloses_quotedBlock hquote hquoted
          exact ⟨_, _, _, _, hstands, List.append_assoc _ _ _, List.cons_ne_nil _ _,
            hparagraph.trans hquote⟩

/-- All that is told of a quoted run stands in a row, unless nothing is told of it because the walk
stops in front of it. -/
theorem Chapter.isolated_run {limit : Nat} {v w : Value} {place : Path}
    (h : Stands v (.run true) place w) :
    (∃ room, Isolated place ((Run.quotedSurvey w).diagnose limit room place) (diagnostics limit v))
      ∨ Isolated place [] (diagnostics limit v) := by
  obtain ⟨level, outer, b, inner, hstands, rfl, hinner, hencloses⟩ := h.quotedRun_cases
  rcases Nat.lt_or_ge limit level with hlt | hle
  · refine .inr ⟨diagnostics limit v, [], by simp only [List.append_nil], nofun, ?_⟩
    intro d hd hunder
    rw [List.append_nil] at hd
    obtain rfl := eq_tooDeep_of_under hstands hlt hd ((List.prefix_append _ _).trans hunder)
    have hlength : (outer ++ inner).length ≤ outer.length := hunder.length_le
    rw [List.length_append] at hlength
    exact hinner (List.eq_nil_of_length_eq_zero (by omega))
  · obtain ⟨room, rfl⟩ := Nat.exists_eq_add_of_le hle
    have hroom : room + 1 + level = level + room + 1 := by omega
    have hblock := isolated_block (mem_blocksAt_iff.mpr hstands) hroom
    exact .inl ⟨room, (hencloses.isolated _ room outer).trans hblock (List.prefix_append _ _)⟩

/-! ## The two rounds -/

/-- Findings at or under marks of one run, in the order of the marks. -/
def Finding.Rising (f g : Finding) : Prop :=
  ∀ i j, [.field "marks", .index i] <+: f.place → [.field "marks", .index j] <+: g.place → i < j

/-- What the contract finds of the mark at a place among the marks of a run. -/
def Finding.OfMark (i : Nat) (f : Finding) : Prop :=
  f = .defect [.field "marks", .index i] (.shape .object)
    ∨ ∃ value, f = .defect [.field "marks", .index i, .field "type"] (.unsupported value)

/-- What the restriction finds of it. -/
def Finding.OfQuotedMark (i : Nat) (f : Finding) : Prop :=
  f = .defect [.field "marks", .index i, .field "type"] (.markNotAllowed Run.quotedMarks)

/-- **`InRounds`** -- findings of one run in two rounds: those of the contract, those of the
restriction, and each round in the order of the marks. -/
def Finding.InRounds (f g : Finding) : Prop :=
  ∀ i j, [.field "marks", .index i] <+: f.place → [.field "marks", .index j] <+: g.place →
    f.OfMark i ∧ g.OfMark j ∧ i < j
      ∨ f.OfQuotedMark i ∧ g.OfQuotedMark j ∧ i < j
      ∨ f.OfMark i ∧ g.OfQuotedMark j

namespace Run

open Survey

theorem pairwise_of_length_le_one {R : Finding → Finding → Prop} :
    ∀ {s : Survey}, s.length ≤ 1 → s.Pairwise R
  | [], _ => List.Pairwise.nil
  | [f], _ => List.pairwise_singleton R f

/-- A round that finds one thing of each mark at most is in the order of the marks. -/
theorem rising_each {check : Value → Survey} (h : ∀ v, (check v).length ≤ 1) (marks : List Value) :
    (under [.field "marks"] (each check marks)).Pairwise Finding.Rising := by
  rw [Survey.under, each, List.pairwise_map, List.pairwise_flatMap]
  constructor
  · rintro ⟨v, place⟩ -
    apply pairwise_of_length_le_one
    show (Survey.under [.index place] (check v)).length ≤ 1
    rw [Survey.under, List.length_map]
    exact h v
  · refine (pairwise_zipIdx marks).imp ?_
    intro a b hlt f hf g hg i j hi hj
    obtain ⟨f, -, rfl⟩ := mem_under.mp hf
    obtain ⟨g, -, rfl⟩ := mem_under.mp hg
    simp only [Finding.place_under, List.singleton_append, List.cons_prefix_cons,
      Step.index.injEq, true_and] at hi hj
    rw [hi.1, hj.1]
    exact hlt

theorem length_markSurvey (v : Value) : (markSurvey v).length ≤ 1 := by
  cases v with
  | object mark =>
    rw [markSurvey, object]
    split
    · exact Nat.zero_le 1
    · exact Nat.le_refl 1
  | _ => exact Nat.le_refl 1

theorem length_markRestriction (v : Value) : (markRestriction quotedMarks v).length ≤ 1 := by
  unfold markRestriction
  split
  · split
    · exact Nat.zero_le 1
    · exact Nat.le_refl 1
  · exact Nat.zero_le 1

theorem rising_survey (v : Value) : (survey v).Pairwise Finding.Rising := by
  refine pairwise_object fun run => List.pairwise_append.mpr ⟨?_, ?_, ?_⟩
  · rw [require]
    split
    · exact List.Pairwise.nil
    · exact List.pairwise_singleton _ _
  · unfold marksSurvey
    split
    · exact List.Pairwise.nil
    · exact List.Pairwise.nil
    · exact rising_each length_markSurvey _
    · exact List.pairwise_singleton _ _
  · -- The text is no matter of marks.
    intro f hf g hg i j hi hj
    obtain ⟨-, rfl⟩ := mem_require.mp hf
    exact absurd (List.cons_prefix_cons.mp hi).1 (by decide)

theorem rising_restriction (v : Value) : (restriction quotedMarks v).Pairwise Finding.Rising := by
  unfold restriction
  split
  · exact rising_each length_markRestriction _
  · exact List.Pairwise.nil

/-- What the contract finds at or under a mark is one of two things. -/
theorem ofMark_of_mem_survey {f : Finding} {v : Value} {i : Nat} (hf : f ∈ survey v)
    (hi : [.field "marks", .index i] <+: f.place) : f.OfMark i := by
  have hlength : 2 ≤ f.place.length := hi.length_le
  rcases object_cases v (fun run => require run "text" ++ marksSurvey run) with
    ⟨run, rfl, heq⟩ | ⟨-, heq⟩
  · rw [survey, heq] at hf
    rcases List.mem_append.mp hf with hf | hf
    · obtain ⟨-, rfl⟩ := mem_require.mp hf
      exact absurd (List.cons_prefix_cons.mp hi).1 (by decide)
    · have hmem := hf
      unfold marksSurvey at hf
      split at hf
      · cases hf
      · cases hf
      · rename_i marks hmarks
        obtain ⟨j, u, -, hcases⟩ := mem_marksSurvey hmarks hmem
        rcases hcases with ⟨rfl, -⟩ | ⟨value, rfl⟩
        · obtain rfl : i = j := by simpa [Finding.place] using hi
          exact .inl rfl
        · obtain rfl : i = j := by simpa [Finding.place] using hi
          exact .inr ⟨value, rfl⟩
      · obtain rfl := mem_atField.mp hf
        exact absurd hlength (by simp [Finding.place])
  · rw [survey, heq] at hf
    obtain rfl := mem_here.mp hf
    exact absurd hlength (by simp [Finding.place])

/-- What the restriction finds there is that the mark is not allowed. -/
theorem ofQuotedMark_of_mem_restriction {f : Finding} {v : Value} {i : Nat}
    (hf : f ∈ restriction quotedMarks v) (hi : [.field "marks", .index i] <+: f.place) :
    f.OfQuotedMark i := by
  obtain ⟨run, marks, rfl, -, j, u, mark, -, -, rfl⟩ := mem_restriction hf
  obtain rfl : i = j := by simpa [Finding.place] using hi
  rfl

/-- **`inRounds`** -- what is found of the marks of a quoted run is found in two rounds. -/
theorem inRounds (v : Value) : (quotedSurvey v).Pairwise Finding.InRounds := by
  refine List.pairwise_append.mpr ⟨?_, ?_, ?_⟩
  · refine (rising_survey v).imp_of_mem ?_
    intro f g hf hg hrising i j hi hj
    exact .inl ⟨ofMark_of_mem_survey hf hi, ofMark_of_mem_survey hg hj, hrising i j hi hj⟩
  · refine (rising_restriction v).imp_of_mem ?_
    intro f g hf hg hrising i j hi hj
    exact .inr (.inl ⟨ofQuotedMark_of_mem_restriction hf hi, ofQuotedMark_of_mem_restriction hg hj,
      hrising i j hi hj⟩)
  · intro f hf g hg i j hi hj
    exact .inr (.inr ⟨ofMark_of_mem_survey hf hi, ofQuotedMark_of_mem_restriction hg hj⟩)

end Run

/-! ## The rounds in a report -/

namespace Diagnostic

/-- What the contract of a mark has to say: it is no object, or its type is not supported. -/
def OfMark (mark : Path) (d : Diagnostic) : Prop :=
  d = ⟨.wrongShape, mark, mark.render ++ " must be an object"⟩
    ∨ ∃ shown, d = ⟨.unknownType, mark ++ [.field "type"],
      Path.render (mark ++ [.field "type"]) ++ " is not supported: " ++ shown⟩

/-- What the restriction has to say: the type of the mark is not allowed in a quote. -/
def OfQuotedMark (mark : Path) (d : Diagnostic) : Prop :=
  d = ⟨.invalidValue, mark ++ [.field "type"],
    Path.render (mark ++ [.field "type"]) ++ " only bold/italic are allowed"⟩

/-- **`InRounds`** -- two diagnostics at or under marks of a run: both are of the contract or both
of the restriction, in the order of the marks, or the one is of the contract and the other of the
restriction. -/
def InRounds (run : Path) (d e : Diagnostic) : Prop :=
  ∀ i j, run ++ [.field "marks", .index i] <+: d.path →
    run ++ [.field "marks", .index j] <+: e.path →
      d.OfMark (run ++ [.field "marks", .index i])
          ∧ e.OfMark (run ++ [.field "marks", .index j]) ∧ i < j
        ∨ d.OfQuotedMark (run ++ [.field "marks", .index i])
          ∧ e.OfQuotedMark (run ++ [.field "marks", .index j]) ∧ i < j
        ∨ d.OfMark (run ++ [.field "marks", .index i])
          ∧ e.OfQuotedMark (run ++ [.field "marks", .index j])

end Diagnostic

theorem Defect.diagnostic_unsupported (value : Option Value) (place : Path) :
    (Defect.unsupported value).diagnostic place
      = ⟨.unknownType, place, place.render ++ " is not supported: " ++ shown value⟩ := by
  have hclause : (Defect.unsupported value).clause = "is not supported: " ++ shown value := rfl
  have hne : Defect.unsupported value ≠ .headerAbsent := nofun
  rw [Defect.diagnostic_of_clause hne hclause]
  rfl

/-- What is found of a mark is told as such. -/
theorem Finding.OfMark.diagnose {limit room i : Nat} {run : Path} {f : Finding} (h : f.OfMark i)
    {d : Diagnostic} (hd : d ∈ f.diagnose limit room run) :
    d.OfMark (run ++ [.field "marks", .index i]) := by
  rcases h with rfl | ⟨value, rfl⟩
  · have hplain : (Defect.shape .object).Plain := trivial
    rw [diagnose_defect, List.mem_singleton] at hd
    refine .inl ?_
    rw [hd, Defect.diagnostic, hplain.message_eq]
    rfl
  · rw [diagnose_defect, List.mem_singleton, Defect.diagnostic_unsupported] at hd
    refine .inr ⟨shown value, ?_⟩
    rw [List.append_assoc]
    exact hd

theorem Finding.OfQuotedMark.diagnose {limit room i : Nat} {run : Path} {f : Finding}
    (h : f.OfQuotedMark i) {d : Diagnostic} (hd : d ∈ f.diagnose limit room run) :
    d.OfQuotedMark (run ++ [.field "marks", .index i]) := by
  have hplain : (Defect.markNotAllowed Run.quotedMarks).Plain := trivial
  rw [h, diagnose_defect, List.mem_singleton] at hd
  rw [hd, Diagnostic.OfQuotedMark, Defect.diagnostic, hplain.message_eq, List.append_assoc]
  rfl

theorem Survey.inRounds_diagnose {limit room : Nat} {run : Path} {s : Survey}
    (hs : s.Pairwise Finding.InRounds) (hdefects : All Finding.IsDefect s) :
    (s.diagnose limit room run).Pairwise (Diagnostic.InRounds run) := by
  have place_of_under {f : Finding} (hf : f ∈ s) {d : Diagnostic}
      (hd : d ∈ f.diagnose limit room run) {i : Nat}
      (hi : run ++ [.field "marks", .index i] <+: d.path) :
      [.field "marks", .index i] <+: f.place := by
    cases f with
    | block place v => exact (hdefects _ hf).elim
    | defect place what =>
      rw [Finding.diagnose_defect, List.mem_singleton] at hd
      rw [hd, Defect.diagnostic_path, List.prefix_append_right_inj] at hi
      exact hi
  refine List.pairwise_flatMap.mpr ⟨?_, hs.imp_of_mem ?_⟩
  · intro f hf
    cases f with
    | block place v => exact (hdefects _ hf).elim
    | defect place what =>
      rw [Finding.diagnose_defect]
      exact List.pairwise_singleton _ _
  · intro f g hf hg hrounds d hd e he i j hi hj
    rcases hrounds i j (place_of_under hf hd hi) (place_of_under hg he hj) with
      ⟨hf, hg, hlt⟩ | ⟨hf, hg, hlt⟩ | ⟨hf, hg⟩
    · exact .inl ⟨hf.diagnose hd, hg.diagnose he, hlt⟩
    · exact .inr (.inl ⟨hf.diagnose hd, hg.diagnose he, hlt⟩)
    · exact .inr (.inr ⟨hf.diagnose hd, hg.diagnose he⟩)

/-- **`inRounds`** -- what is told of the marks of a quoted run is told in two rounds. -/
theorem Chapter.inRounds {limit : Nat} {v w : Value} {run : Path} (h : Stands v (.run true) run w) :
    (diagnostics limit v).Pairwise (Diagnostic.InRounds run) := by
  have hrun : ∃ told, Isolated run told (diagnostics limit v)
      ∧ told.Pairwise (Diagnostic.InRounds run) := by
    rcases isolated_run h with ⟨room, hisolated⟩ | hisolated
    · refine ⟨_, hisolated, Survey.inRounds_diagnose (Run.inRounds w) ?_⟩
      exact Run.all_quotedSurvey Finding.stable_isDefect w
    · exact ⟨[], hisolated, List.Pairwise.nil⟩
  obtain ⟨told, hisolated, hrounds⟩ := hrun
  rw [List.pairwise_iff_forall_sublist] at hrounds ⊢
  intro d e hsublist i j hi hj
  -- Two diagnostics at marks of the run are two of those that are told of the run, in that order.
  have hd : run <+: d.path := (List.prefix_append _ _).trans hi
  have he : run <+: e.path := (List.prefix_append _ _).trans hj
  have hboth : [d, e].filter (run <+: ·.path) = [d, e] := by simp [hd, he]
  have hfilter := hsublist.filter (run <+: ·.path)
  rw [hisolated.filter_eq, hboth] at hfilter
  exact hrounds hfilter i j hi hj

end ChapterCheck
