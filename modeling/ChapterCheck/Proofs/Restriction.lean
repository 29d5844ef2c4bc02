/-
# ChapterCheck.Proofs.Restriction -- the restriction of marks is a layer over the contract

A paragraph in the quote of an engine is held to the contract of an ordinary paragraph and to a
restriction besides. What is told of it is what is told of the same paragraph elsewhere, with more
in between: one diagnostic for each mark that the restriction bars, behind all else that is told of
its run (`Block.layered_quotedParagraph`).

Both looks go over the same runs. So it is enough to see what the restriction adds to one run
(`Run.diagnose_quotedSurvey`); the rest is a matter of putting the runs in a row.
-/
import Mathlib.Data.List.Basic
import ChapterCheck.Proofs.QuotedRuns

namespace ChapterCheck

open Json Grammar

/-! ## What the layer is -/

/-- The steps from a paragraph to a mark of one of its runs. -/
def markSteps (r k : Nat) : Path :=
  [.field "inlines", .index r, .field "marks", .index k]

/-- **`Block.Barred`** -- at the place `k` among the marks of the run `r` there is a mark, and its
type is not one of those that the quote of an engine may have. -/
def Block.Barred (block : Members) (r k : Nat) : Prop :=
  ∃ mark, (Value.object block).resolve? (markSteps r k) = some (.object mark)
    ∧ ¬Word quotedMarkWords mark "type"

/-- **`Block.IllShaped`** -- a part of a paragraph that the restriction passes over, because it is
not of the shape that marks could be found in. -/
inductive Block.IllShaped : Path → Value → Prop
  | run {r : Nat} {part : Value} : (∀ run, part ≠ .object run) →
      IllShaped [.field "inlines", .index r] part
  | marks {r : Nat} {part : Value} : part ≠ .null → (∀ marks, part ≠ .array marks) →
      IllShaped [.field "inlines", .index r, .field "marks"] part
  | mark {r k : Nat} {part : Value} : (∀ mark, part ≠ .object mark) →
      IllShaped (markSteps r k) part

namespace Diagnostic

/-- How a mark that the restriction bars is told. -/
def barred (mark : Path) : Diagnostic :=
  ⟨.invalidValue, mark ++ [.field "type"],
    Path.render (mark ++ [.field "type"]) ++ " only bold/italic are allowed"⟩

/-- **`RunByRun`** -- two diagnostics of a paragraph: the earlier is not of a later run, and if both
are of one run, the contract has its say before the restriction. -/
def RunByRun (paragraph : Path) (d e : Diagnostic) : Prop :=
  ∀ r s, paragraph ++ [.field "inlines", .index r] <+: d.path →
    paragraph ++ [.field "inlines", .index s] <+: e.path →
      r < s ∨ r = s ∧ (d.kind = .invalidValue → e.kind = .invalidValue)

end Diagnostic

/-- **`Block.Layered`** -- what is told of a quoted paragraph is a layer over what is told of the
same paragraph elsewhere. -/
structure Block.Layered (block : Members) (place : Path) (plain quoted : List Diagnostic) :
    Prop where
  /-- Without the layer, the diagnostics are those of the ordinary paragraph. -/
  kept : quoted.filter (·.kind ≠ .invalidValue) = plain
  /-- The layer has one diagnostic for each barred mark, in the order of the runs and marks. -/
  added : ∃ pairs : List (Nat × Nat), pairs.Pairwise (Prod.Lex (· < ·) (· < ·))
    ∧ (∀ r k, (r, k) ∈ pairs ↔ Barred block r k)
    ∧ quoted.filter (·.kind = .invalidValue)
      = pairs.map fun (r, k) => Diagnostic.barred (place ++ markSteps r k)
  /-- In each run the layer comes behind the rest, and in front of all that is told of the next. -/
  runByRun : quoted.Pairwise (Diagnostic.RunByRun place)
  /-- What the restriction passes over, the contract has found to be of the wrong shape. -/
  passedOver : ∀ steps part, (Value.object block).resolve? steps = some part →
    IllShaped steps part → ∃ d ∈ plain, d.kind = .wrongShape ∧ d.path = place ++ steps

/-! ## One run -/

namespace Run

open Survey

/-- The contract has nothing to say of values outside a set. -/
theorem kind_ne_of_mem_survey {v : Value} {place : Path} {what : Defect}
    (h : .defect place what ∈ survey v) : what.kind ≠ .invalidValue := by
  rcases object_cases v (fun run => require run "text" ++ marksSurvey run) with
    ⟨run, -, heq⟩ | ⟨-, heq⟩
  · rw [survey, heq] at h
    rcases List.mem_append.mp h with h | h
    · obtain ⟨-, hdefect⟩ := mem_require.mp h
      cases hdefect
      decide
    · have hmarks := h
      unfold marksSurvey at h
      split at h
      · cases h
      · cases h
      · rename_i marks hget
        obtain ⟨k, u, -, ⟨hdefect, -⟩ | ⟨value, hdefect⟩⟩ := mem_marksSurvey hget hmarks
        · cases hdefect
          decide
        · cases hdefect
          show DefectKind.unknownType ≠ .invalidValue
          decide
      · cases mem_atField.mp h
        decide
  · rw [survey, heq] at h
    cases mem_here.mp h
    decide

/-- Does the restriction bar a value in the place of a mark? What is no mark it passes over. -/
def isBarred : Value → Bool
  | .object mark => !(markKind? mark).any (· ∈ quotedMarks)
  | _ => false

theorem isBarred_iff {v : Value} :
    isBarred v = true ↔ ∃ mark, v = .object mark ∧ ¬Word quotedMarkWords mark "type" := by
  cases v with
  | object mark =>
    rw [isBarred, Bool.not_eq_true', ← Bool.not_eq_true, any_quotedMarks_iff]
    constructor
    · exact fun hbarred => ⟨mark, rfl, hbarred⟩
    · rintro ⟨_, ⟨⟩, hbarred⟩
      exact hbarred
  | _ => simp [isBarred]

/-- The places of the barred marks of a run. -/
def barredMarks (run : Value) : List Nat :=
  ((elements run "marks").zipIdx.filter fun (mark, _) => isBarred mark).map Prod.snd

theorem mem_barredMarks {run : Value} {k : Nat} :
    k ∈ barredMarks run ↔ ∃ mark, run.resolve? [.field "marks", .index k] = some (.object mark)
      ∧ ¬Word quotedMarkWords mark "type" := by
  simp only [barredMarks, List.mem_map, List.mem_filter, Prod.exists, exists_eq_right,
    List.mk_mem_zipIdx_iff_getElem?, elements_getElem?, isBarred_iff]
  constructor
  · rintro ⟨_, hmark, mark, rfl, hbarred⟩
    exact ⟨mark, hmark, hbarred⟩
  · rintro ⟨mark, hmark, hbarred⟩
    exact ⟨_, hmark, mark, rfl, hbarred⟩

theorem pairwise_barredMarks (run : Value) : (barredMarks run).Pairwise (· < ·) :=
  List.pairwise_map.mpr ((pairwise_zipIdx (elements run "marks")).filter _)

theorem markRestriction_eq (v : Value) :
    markRestriction quotedMarks v
      = if isBarred v then atField "type" (.markNotAllowed quotedMarks) else [] := by
  cases v with
  | object mark =>
    rw [markRestriction, isBarred]
    cases (markKind? mark).any (· ∈ quotedMarks) <;> rfl
  | _ => rfl

/-- What the restriction finds of some values in the place of marks, it finds at the barred ones. -/
theorem each_markRestriction (marks : List (Value × Nat)) :
    (marks.flatMap fun (mark, k) => under [.index k] (markRestriction quotedMarks mark))
      = (marks.filter fun (mark, _) => isBarred mark).map fun (_, k) =>
        .defect [.index k, .field "type"] (.markNotAllowed quotedMarks) := by
  induction marks with
  | nil => rfl
  | cons entry rest ih =>
    obtain ⟨mark, k⟩ := entry
    rw [List.flatMap_cons, ih, List.filter_cons]
    show under [.index k] (markRestriction quotedMarks mark) ++ _ = _
    rw [markRestriction_eq]
    split <;> rfl

theorem restriction_eq (run : Value) :
    restriction quotedMarks run = (barredMarks run).map fun k =>
      .defect [.field "marks", .index k, .field "type"] (.markNotAllowed quotedMarks) := by
  have heach : restriction quotedMarks run
      = under [.field "marks"] (each (markRestriction quotedMarks) (elements run "marks")) := by
    unfold restriction
    split
    · rename_i marks hfield
      rw [elements_of_field? hfield]
    · rename_i hfield
      have hnone : elements run "marks" = [] := by
        cases hget : run.field? "marks" with
        | none => rw [elements, hget]; rfl
        | some w =>
          cases w with
          | array marks => exact absurd hget (hfield marks)
          | _ => rw [elements, hget]; rfl
      rw [hnone]
      rfl
  rw [heach, each, each_markRestriction, barredMarks, under, List.map_map, List.map_map]
  rfl

end Run

theorem Defect.diagnostic_markNotAllowed (mark : Path) :
    (Defect.markNotAllowed Run.quotedMarks).diagnostic (mark ++ [.field "type"])
      = Diagnostic.barred mark := by
  have hplain : (Defect.markNotAllowed Run.quotedMarks).Plain := trivial
  rw [diagnostic, hplain.message_eq]
  rfl

/-- **`diagnose_quotedSurvey`** -- of a run in a quote is told what is told of it elsewhere, and
behind that its barred marks, one by one. -/
theorem Run.diagnose_quotedSurvey (limit room : Nat) (run : Path) (v : Value) :
    (quotedSurvey v).diagnose limit room run
      = (survey v).diagnose limit room run
        ++ (barredMarks v).map fun k => Diagnostic.barred (run ++ [.field "marks", .index k]) := by
  have htold : ∀ k : Nat, Finding.diagnose limit room run
      (.defect [.field "marks", .index k, .field "type"] (.markNotAllowed quotedMarks))
        = [Diagnostic.barred (run ++ [.field "marks", .index k])] := by
    intro k
    rw [Finding.diagnose_defect, ← Defect.diagnostic_markNotAllowed, List.append_assoc]
    rfl
  rw [quotedSurvey, Survey.diagnose_append, restriction_eq]
  show _ ++ List.flatMap _ (List.map _ _) = _
  rw [List.flatMap_map]
  simp only [htold, List.map_eq_flatMap]

/-- What is told of a run elsewhere is never that a value lies outside a set. -/
theorem Run.kind_ne_of_mem_diagnose {limit room : Nat} {run : Path} {v : Value} {d : Diagnostic}
    (hd : d ∈ (survey v).diagnose limit room run) : d.kind ≠ .invalidValue := by
  obtain ⟨f, hf, hd⟩ := List.mem_flatMap.mp hd
  cases f with
  | block place w => exact (all_survey Finding.stable_isDefect v _ hf).elim
  | defect place what =>
    rw [Finding.diagnose_defect, List.mem_singleton] at hd
    rw [hd]
    exact kind_ne_of_mem_survey hf

/-! ## The runs in a row -/

theorem Survey.diagnose_each (limit room : Nat) (base : Path) (check : Value → Survey)
    (items : List Value) :
    (each check items).diagnose limit room base
      = items.zipIdx.flatMap fun (v, i) => (check v).diagnose limit room (base ++ [.index i]) := by
  rw [diagnose, each, List.flatMap_assoc]
  refine List.flatMap_congr fun item _ => ?_
  exact diagnose_under limit room base [.index item.2] (check item.1)

theorem Survey.diagnose_filled {owner : Members} {key : String} {items : List Value}
    (hget : owner.get? key = some (.array items)) (hne : items ≠ []) (limit room : Nat)
    (base : Path) (check : Value → Survey) :
    (filled owner key check).diagnose limit room base
      = items.zipIdx.flatMap fun (v, i) =>
        (check v).diagnose limit room (base ++ [.field key, .index i]) := by
  rw [filled_of_ne_nil hget hne, diagnose_under, diagnose_each]
  simp only [List.append_assoc, List.cons_append, List.nil_append]

namespace Block

variable {block : Members} {items : List Value} {limit room : Nat} {place : Path}

/-- What is told of the run at a place of a quoted paragraph. -/
def runTold (limit room : Nat) (place : Path) (run : Value × Nat) : List Diagnostic :=
  (Run.survey run.1).diagnose limit room (place ++ [.field "inlines", .index run.2])

/-- What the restriction adds to it. -/
def runBarred (place : Path) (run : Value × Nat) : List Diagnostic :=
  (Run.barredMarks run.1).map fun k => Diagnostic.barred (place ++ markSteps run.2 k)

theorem diagnose_inlines (hget : block.get? "inlines" = some (.array items)) (hne : items ≠ [])
    (limit room : Nat) (place : Path) :
    (Survey.filled block "inlines" Run.survey).diagnose limit room place
      = items.zipIdx.flatMap (runTold limit room place) :=
  Survey.diagnose_filled hget hne limit room place Run.survey

theorem diagnose_quotedInlines (hget : block.get? "inlines" = some (.array items))
    (hne : items ≠ []) (limit room : Nat) (place : Path) :
    (Survey.filled block "inlines" Run.quotedSurvey).diagnose limit room place
      = items.zipIdx.flatMap fun run => runTold limit room place run ++ runBarred place run := by
  rw [Survey.diagnose_filled hget hne]
  refine List.flatMap_congr fun (v, r) _ => ?_
  simp only [Run.diagnose_quotedSurvey, runTold, runBarred, markSteps, List.append_assoc,
    List.cons_append, List.nil_append]

theorem kind_of_mem_runBarred {run : Value × Nat} {d : Diagnostic} (hd : d ∈ runBarred place run) :
    d.kind = .invalidValue := by
  obtain ⟨k, -, rfl⟩ := List.mem_map.mp hd
  rfl

/-- What is told of a run, with the layer or without, is told at or under it. -/
theorem under_of_mem_run {run : Value × Nat} {d : Diagnostic}
    (hd : d ∈ runTold limit room place run ++ runBarred place run) :
    place ++ [.field "inlines", .index run.2] <+: d.path := by
  rcases List.mem_append.mp hd with hd | hd
  · obtain ⟨f, -, hd⟩ := List.mem_flatMap.mp hd
    exact (List.prefix_append _ _).trans (Finding.prefix_of_mem_diagnose hd)
  · obtain ⟨k, -, rfl⟩ := List.mem_map.mp hd
    have hsteps : [.field "inlines", .index run.2] <+: markSteps run.2 k ++ [.field "type"] :=
      ⟨[.field "marks", .index k, .field "type"], rfl⟩
    show _ <+: place ++ markSteps run.2 k ++ [.field "type"]
    rw [List.append_assoc]
    exact (List.prefix_append_right_inj place).mpr hsteps

theorem filter_keep (run : Value × Nat) :
    (runTold limit room place run ++ runBarred place run).filter (·.kind ≠ .invalidValue)
      = runTold limit room place run := by
  have htold : (runTold limit room place run).filter (·.kind ≠ .invalidValue)
      = runTold limit room place run :=
    List.filter_eq_self.mpr fun d hd => decide_eq_true (Run.kind_ne_of_mem_diagnose hd)
  have hbarred : (runBarred place run).filter (·.kind ≠ .invalidValue) = [] :=
    List.filter_eq_nil_iff.mpr fun d hd => by simp [kind_of_mem_runBarred hd]
  rw [List.filter_append, htold, hbarred, List.append_nil]

theorem filter_layer (run : Value × Nat) :
    (runTold limit room place run ++ runBarred place run).filter (·.kind = .invalidValue)
      = runBarred place run := by
  have htold : (runTold limit room place run).filter (·.kind = .invalidValue) = [] :=
    List.filter_eq_nil_iff.mpr fun d hd => by simp [Run.kind_ne_of_mem_diagnose hd]
  have hbarred : (runBarred place run).filter (·.kind = .invalidValue) = runBarred place run :=
    List.filter_eq_self.mpr fun d hd => decide_eq_true (kind_of_mem_runBarred hd)
  rw [List.filter_append, htold, hbarred, List.nil_append]

/-- The barred marks of a paragraph, run by run. -/
def barredPairs (items : List Value) : List (Nat × Nat) :=
  items.zipIdx.flatMap fun (run, r) => (Run.barredMarks run).map (r, ·)

theorem mem_barredPairs (hget : block.get? "inlines" = some (.array items)) {r k : Nat} :
    (r, k) ∈ barredPairs items ↔ Barred block r k := by
  have hrun : ∀ {i : Nat} {run : Value}, items[i]? = some run ↔
      (Value.object block).resolve? [.field "inlines", .index i] = some run := by
    intro i run
    rw [← elements_getElem?, elements_of_field? (v := .object block) hget]
  simp only [barredPairs, List.mem_flatMap, Prod.exists, List.mk_mem_zipIdx_iff_getElem?,
    List.mem_map, Prod.mk.injEq, hrun, Run.mem_barredMarks, Barred]
  constructor
  · rintro ⟨run, _, hr, _, ⟨mark, hmark, hbarred⟩, rfl, rfl⟩
    exact ⟨mark, resolve?_two hr hmark, hbarred⟩
  · rintro ⟨mark, hmark, hbarred⟩
    obtain ⟨run, hr, hmark⟩ := exists_of_resolve?_two hmark
    exact ⟨run, r, hr, k, ⟨mark, hmark, hbarred⟩, rfl, rfl⟩

theorem pairwise_barredPairs (items : List Value) :
    (barredPairs items).Pairwise (Prod.Lex (· < ·) (· < ·)) := by
  refine List.pairwise_flatMap.mpr ⟨?_, (Survey.pairwise_zipIdx items).imp ?_⟩
  · rintro ⟨run, r⟩ -
    exact List.pairwise_map.mpr ((Run.pairwise_barredMarks run).imp (Prod.Lex.right r))
  · intro a b hlt x hx y hy
    obtain ⟨k, -, rfl⟩ := List.mem_map.mp hx
    obtain ⟨l, -, rfl⟩ := List.mem_map.mp hy
    exact Prod.Lex.left k l hlt

theorem map_barredPairs (items : List Value) (place : Path) :
    (barredPairs items).map (fun (r, k) => Diagnostic.barred (place ++ markSteps r k))
      = items.zipIdx.flatMap (runBarred place) := by
  rw [barredPairs, List.map_flatMap]
  refine List.flatMap_congr fun (run, r) _ => ?_
  rw [List.map_map]
  rfl

theorem eq_of_mem_run {run : Value × Nat} {d : Diagnostic} {r : Nat}
    (hd : d ∈ runTold limit room place run ++ runBarred place run)
    (hr : place ++ [.field "inlines", .index r] <+: d.path) : r = run.2 := by
  have hrun := under_of_mem_run hd
  rw [List.append_cons] at hr hrun
  exact Step.index.inj (Path.eq_of_append_under hr hrun)

/-- **`runByRun`** -- the runs come one after the other, each with its layer at the end. -/
theorem runByRun (limit room : Nat) (place : Path) (runs : List Value) :
    (runs.zipIdx.flatMap fun run => runTold limit room place run ++ runBarred place run).Pairwise
      (Diagnostic.RunByRun place) := by
  refine List.pairwise_flatMap.mpr ⟨?_, (Survey.pairwise_zipIdx runs).imp ?_⟩
  · intro run _
    have hlayer : (runTold limit room place run ++ runBarred place run).Pairwise
        fun d e => d.kind = .invalidValue → e.kind = .invalidValue := by
      refine List.pairwise_append.mpr ⟨?_, ?_, ?_⟩
      · exact List.pairwise_of_forall_mem_list fun d hd e _ hkind =>
          absurd hkind (Run.kind_ne_of_mem_diagnose hd)
      · exact List.pairwise_of_forall_mem_list fun d _ e he _ => kind_of_mem_runBarred he
      · exact fun d _ e he _ => kind_of_mem_runBarred he
    refine hlayer.imp_of_mem ?_
    intro d e hd he hkinds r s hr hs
    exact .inr ⟨(eq_of_mem_run hd hr).trans (eq_of_mem_run he hs).symm, hkinds⟩
  · intro a b hlt d hd e he r s hr hs
    rw [eq_of_mem_run hd hr, eq_of_mem_run he hs]
    exact .inl hlt

/-! ## Parts that are passed over -/

/-- What is found of a run of a paragraph is found of the paragraph. -/
theorem mem_inlines {r : Nat} {run : Value} {f : Finding}
    (hrun : (Value.object block).resolve? [.field "inlines", .index r] = some run)
    (hf : f ∈ Run.survey run) :
    f.under [.field "inlines", .index r] ∈ Survey.filled block "inlines" Run.survey := by
  obtain ⟨_, items, ⟨⟩, hget, hr⟩ := exists_items_of_resolve? hrun
  have hne : items ≠ [] := List.ne_nil_of_mem (List.mem_of_getElem? hr)
  rw [Survey.filled_of_ne_nil hget hne]
  exact Survey.mem_under_each.mpr ⟨r, run, hr, f, hf, rfl⟩

end Block

namespace Run

theorem shape_of_not_object {part : Value} (h : ∀ run, part ≠ .object run) :
    .defect [] (.shape .object) ∈ survey part := by
  cases part with
  | object run => exact absurd rfl (h run)
  | _ => exact Survey.mem_here.mpr rfl

theorem shape_of_marks {run part : Value} (hpart : run.resolve? [.field "marks"] = some part)
    (hnull : part ≠ .null) (harray : ∀ marks, part ≠ .array marks) :
    .defect [.field "marks"] (.shape .array) ∈ survey run := by
  obtain ⟨_, hfield, ⟨⟩⟩ := Option.bind_eq_some_iff.mp hpart
  cases run with
  | object members =>
    have hget : Members.get? members "marks" = some part := hfield
    have hmarks : marksSurvey members = Survey.atField "marks" (.shape .array) := by
      rw [marksSurvey, hget]
      cases part with
      | null => exact absurd rfl hnull
      | array marks => exact absurd rfl (harray marks)
      | _ => rfl
    refine List.mem_append_right _ ?_
    rw [hmarks]
    exact Survey.mem_atField.mpr rfl
  | _ => cases hfield

theorem shape_of_mark {run part : Value} {k : Nat}
    (hpart : run.resolve? [.field "marks", .index k] = some part)
    (hobject : ∀ mark, part ≠ .object mark) :
    .defect [.field "marks", .index k] (.shape .object) ∈ survey run := by
  have hmark : .defect [] (.shape .object) ∈ markSurvey part := by
    cases part with
    | object mark => exact absurd rfl (hobject mark)
    | _ => exact Survey.mem_here.mpr rfl
  have hleads : Leads (.run false) run [.field "marks", .index k] (.mark false) := .run
  exact hleads.mem_look hpart hmark

end Run

namespace Block

variable {block : Members} {limit room : Nat} {place : Path}

/-- The contract has found every part that is passed over. -/
theorem IllShaped.exists_shape {steps : Path} {part : Value} (h : IllShaped steps part)
    (hpart : (Value.object block).resolve? steps = some part) :
    ∃ demanded, .defect steps (.shape demanded) ∈ Survey.filled block "inlines" Run.survey := by
  cases h with
  | run hobject => exact ⟨.object, mem_inlines hpart (Run.shape_of_not_object hobject)⟩
  | marks hnull harray =>
    obtain ⟨run, hrun, hmarks⟩ := exists_of_resolve?_two hpart
    exact ⟨.array, mem_inlines hrun (Run.shape_of_marks hmarks hnull harray)⟩
  | mark hobject =>
    obtain ⟨run, hrun, hmark⟩ := exists_of_resolve?_two hpart
    exact ⟨.object, mem_inlines hrun (Run.shape_of_mark hmark hobject)⟩

theorem IllShaped.exists_run {steps : Path} {part : Value} (h : IllShaped steps part)
    (hpart : (Value.object block).resolve? steps = some part) :
    ∃ r run, (Value.object block).resolve? [.field "inlines", .index r] = some run := by
  cases h with
  | run => exact ⟨_, _, hpart⟩
  | marks =>
    obtain ⟨run, hrun, -⟩ := exists_of_resolve?_two hpart
    exact ⟨_, run, hrun⟩
  | mark =>
    obtain ⟨run, hrun, -⟩ := exists_of_resolve?_two hpart
    exact ⟨_, run, hrun⟩

/-! ## The paragraph -/

/-- Without runs nothing is barred, and the two looks find the same. -/
theorem layered_of_unfilled (hunfilled : block.Unfilled "inlines") (limit room : Nat)
    (place : Path) :
    Layered block place ((Survey.atField "inlines" (.shape .filledArray)).diagnose limit room place)
      ((Survey.atField "inlines" (.shape .filledArray)).diagnose limit room place) := by
  have htold : (Survey.atField "inlines" (.shape .filledArray)).diagnose limit room place
      = [(Defect.shape .filledArray).diagnostic (place ++ [.field "inlines"])] := by
    rw [Survey.diagnose, Survey.atField, List.flatMap_singleton, Finding.diagnose_defect]
  have hnone : ∀ r run, (Value.object block).resolve? [.field "inlines", .index r] ≠ some run := by
    intro r run hrun
    obtain ⟨_, items, ⟨⟩, hget, hr⟩ := exists_items_of_resolve? hrun
    rw [hunfilled items hget] at hr
    cases hr
  have hnever : ∀ r k, ¬Barred block r k := by
    rintro r k ⟨mark, hmark, -⟩
    obtain ⟨run, hrun, -⟩ := exists_of_resolve?_two hmark
    exact hnone r run hrun
  rw [htold]
  refine ⟨rfl, ⟨[], List.Pairwise.nil, ?_, rfl⟩, List.pairwise_singleton _ _, ?_⟩
  · exact fun r k => ⟨(absurd · List.not_mem_nil), fun hbarred => absurd hbarred (hnever r k)⟩
  · intro steps part hpart hill
    obtain ⟨r, run, hrun⟩ := hill.exists_run hpart
    exact absurd hrun (hnone r run)

theorem layered_of_filled {items : List Value}
    (hget : block.get? "inlines" = some (.array items)) (hne : items ≠ []) (limit room : Nat)
    (place : Path) :
    Layered block place
      ((Survey.filled block "inlines" Run.survey).diagnose limit room place)
      ((Survey.filled block "inlines" Run.quotedSurvey).diagnose limit room place) := by
  have hplain := diagnose_inlines hget hne limit room place
  rw [diagnose_quotedInlines hget hne]
  refine ⟨?_, ⟨barredPairs items, pairwise_barredPairs items, ?_, ?_⟩, ?_, ?_⟩
  · rw [hplain, List.filter_flatMap]
    exact List.flatMap_congr fun run _ => filter_keep run
  · exact fun r k => mem_barredPairs hget
  · rw [List.filter_flatMap, map_barredPairs]
    exact List.flatMap_congr fun run _ => filter_layer run
  · exact runByRun limit room place items
  · intro steps part hpart hill
    obtain ⟨demanded, hfound⟩ := hill.exists_shape hpart
    refine ⟨(Defect.shape demanded).diagnostic (place ++ steps), ?_, rfl, rfl⟩
    refine List.mem_flatMap.mpr ⟨_, hfound, ?_⟩
    rw [Finding.diagnose_defect]
    exact List.mem_singleton_self _

/-- **`layered_quotedParagraph`** -- a paragraph in the quote of an engine is told as the same
paragraph is told elsewhere, with the barred marks of each run behind what is told of the run. -/
theorem layered_quotedParagraph {block : Members} (hnamed : Named block "paragraph")
    (limit room : Nat) (place : Path) :
    Layered block place ((survey (.object block)).diagnose limit room place)
      ((quotedParagraph (.object block)).diagnose limit room place) := by
  have hsurvey : survey (.object block) = contract block .paragraph := survey_of_named hnamed
  rw [hsurvey, contract, quotedParagraph_of_named hnamed]
  rcases Survey.filled_cases block "inlines" Run.survey with
    ⟨items, hget, hne, -⟩ | ⟨hunfilled, hplain⟩
  · exact layered_of_filled hget hne limit room place
  · have hquoted : Survey.filled block "inlines" Run.quotedSurvey
        = Survey.atField "inlines" (.shape .filledArray) := by
      rcases Survey.filled_cases block "inlines" Run.quotedSurvey with
        ⟨items, hget, hne, -⟩ | ⟨-, heq⟩
      · exact absurd (hunfilled items hget) hne
      · exact heq
    rw [hplain, hquoted]
    exact layered_of_unfilled hunfilled limit room place

/-- A paragraph with a mark that is unknown, a mark that is none, and marks that are no array. -/
def markedParagraph : Members :=
  [("inlines", .array [
    .object [("marks", .array [.object [("type", .string "blink")], .string "bold"]),
      ("text", .string "a")],
    .object [("marks", .string "italic")]]),
   ("type", .string "paragraph")]

/-- The unknown mark is told twice, the second time behind all else of its run. -/
theorem layered_markedParagraph :
    Named markedParagraph "paragraph"
      ∧ Layered markedParagraph [.field "blocks", .index 0]
        ((survey (.object markedParagraph)).diagnose 64 63 [.field "blocks", .index 0])
        ((quotedParagraph (.object markedParagraph)).diagnose 64 63
          [.field "blocks", .index 0]) := by
  have hnamed : Named markedParagraph "paragraph" := rfl
  exact ⟨hnamed, layered_quotedParagraph hnamed 64 63 _⟩

end Block

end ChapterCheck
