/-
# ChapterCheck.Proofs.Truncation -- a lower limit only cuts off

Two reports on one chapter under two limits differ only below the lower one. The main statement is
`Validator.errors_truncate`: where the lower limit stops, at the blocks one level below it, the
diagnostics that the other report has at and under the block give way to one that says it is too
deep; everything else is the same, in the same order.

`Truncates` is the relation between the two lists. It goes through appended lists, so a walk that is
cut off block by block is cut off as a whole.
-/
import ChapterCheck.Proofs.Plain
import ChapterCheck.Proofs.Walk
import ChapterCheck.Validator

namespace ChapterCheck

open Json

/-! ## Truncated lists -/

/-- **`Truncates`** -- one list of diagnostics is another one cut off at some places, in order. What
is `kept` is the same in both; at each of the places, what the longer list has at and under it gives
way to one diagnostic. -/
inductive Truncates (limit : Nat) (kept : Diagnostic → Prop) :
    List Path → List Diagnostic → List Diagnostic → Prop
  | nil : Truncates limit kept [] [] []
  | keep {d : Diagnostic} {stops : List Path} {lax strict : List Diagnostic} : kept d →
      Truncates limit kept stops lax strict → Truncates limit kept stops (d :: lax) (d :: strict)
  | stop {place : Path} {stops : List Path} {run lax strict : List Diagnostic} :
      (∀ d ∈ run, place <+: d.path) → Truncates limit kept stops lax strict →
      Truncates limit kept (place :: stops) (run ++ lax)
        (⟨.tooDeep, place,
          place.render ++ " exceeds maximum nesting depth of " ++ Nat.repr limit⟩ :: strict)

namespace Truncates

variable {limit : Nat} {kept kept' : Diagnostic → Prop} {stops : List Path}
  {lax strict : List Diagnostic}

theorem append {stops' : List Path} {lax' strict' : List Diagnostic}
    (h : Truncates limit kept stops lax strict) (h' : Truncates limit kept stops' lax' strict') :
    Truncates limit kept (stops ++ stops') (lax ++ lax') (strict ++ strict') := by
  induction h with
  | nil => exact h'
  | keep hkept _ ih => exact .keep hkept ih
  | stop hrun _ ih =>
    rw [List.append_assoc]
    exact .stop hrun ih

theorem flatMap {α : Type} {items : List α} {places : α → List Path}
    {longer shorter : α → List Diagnostic}
    (h : ∀ a ∈ items, Truncates limit kept (places a) (longer a) (shorter a)) :
    Truncates limit kept (items.flatMap places) (items.flatMap longer)
      (items.flatMap shorter) := by
  induction items with
  | nil => exact .nil
  | cons a items ih =>
    rw [List.forall_mem_cons] at h
    exact h.1.append (ih h.2)

theorem single {d : Diagnostic} (h : kept d) : Truncates limit kept [] [d] [d] :=
  .keep h .nil

theorem cut {place : Path} {run : List Diagnostic} (h : ∀ d ∈ run, place <+: d.path) :
    Truncates limit kept [place] run
      [⟨.tooDeep, place,
        place.render ++ " exceeds maximum nesting depth of " ++ Nat.repr limit⟩] := by
  rw [← List.append_nil run]
  exact .stop h .nil

/-- What is kept may be told otherwise, as far as the shorter list has it. -/
theorem imp (h : Truncates limit kept stops lax strict) (himp : ∀ d ∈ strict, kept d → kept' d) :
    Truncates limit kept' stops lax strict := by
  induction h with
  | nil => exact .nil
  | keep hkept _ ih =>
    rw [List.forall_mem_cons] at himp
    exact .keep (himp.1 hkept) (ih himp.2)
  | stop hrun _ ih =>
    rw [List.forall_mem_cons] at himp
    exact .stop hrun (ih himp.2)

/-- If nothing that is kept is too deep, the places are those that are told as too deep. -/
theorem paths_eq (h : Truncates limit kept stops lax strict)
    (hkept : ∀ d, kept d → d.kind ≠ .tooDeep) :
    (strict.filter (·.kind = .tooDeep)).map Diagnostic.path = stops := by
  induction h with
  | nil => rfl
  | keep hd _ ih =>
    rw [List.filter_cons_of_neg (by simpa using hkept _ hd)]
    exact ih
  | stop _ _ ih =>
    rw [List.filter_cons_of_pos (by simp), List.map_cons, ih]

/-- Only what is empty is cut off to nothing. -/
theorem eq_nil (h : Truncates limit kept stops lax []) : lax = [] := by
  cases h
  rfl

/-- What is cut off nowhere is the same. -/
theorem eq_of_nil (h : Truncates limit kept [] lax strict) : lax = strict := by
  generalize hstops : [] = stops at h
  induction h with
  | nil => rfl
  | keep _ _ ih => rw [ih hstops]
  | stop => cases hstops

end Truncates

/-! ## Two walks -/

/-- The places where a walk stops that has `room` levels left. -/
def Finding.stops (room : Nat) (base : Path) : Finding → List Path
  | .defect _ _ => []
  | .block place v => (Block.descend room (base ++ place, v)).map Prod.fst

/-- A walk through a survey stops where it stops in the blocks that the survey finds. -/
theorem Survey.flatMap_stops (room : Nat) (base : Path) (s : Survey) :
    s.flatMap (Finding.stops room base)
      = (((held s).map (Placed.under base)).flatMap (Block.descend room)).map Prod.fst := by
  induction s with
  | nil => rfl
  | cons f s ih =>
    rw [List.flatMap_cons, ih]
    cases f with
    | defect place what => rfl
    | block place v =>
      show _ = ((Placed.under base (place, v) :: (held s).map _).flatMap _).map Prod.fst
      rw [List.flatMap_cons, List.map_append]
      rfl

/-- A finding that is no matter of depth is told by two walks as truncation has it: the one with
`extra` levels more goes on where the other stops. -/
theorem Finding.truncates {limit extra room : Nat} {base : Path} {f : Finding}
    (hf : ∀ place what, f = .defect place what → what.kind ≠ .tooDeep) :
    Truncates limit (·.kind ≠ .tooDeep) (f.stops room base)
      (f.diagnose (limit + extra) (room + extra) base) (f.diagnose limit room base) := by
  induction room generalizing base f with
  | zero =>
    cases f with
    | defect place what =>
      rw [diagnose_defect, diagnose_defect]
      exact .single (hf place what rfl)
    | block place v =>
      -- Here the shorter walk stops; the longer one tells something under the place, or nothing.
      rw [diagnose_block_zero, Defect.diagnostic_tooDeep]
      exact .cut fun d hd => prefix_of_mem_diagnose hd
  | succ room ih =>
    cases f with
    | defect place what =>
      rw [diagnose_defect, diagnose_defect]
      exact .single (hf place what rfl)
    | block place v =>
      rw [Nat.add_right_comm, diagnose_block_succ, diagnose_block_succ]
      show Truncates _ _ ((Block.descend (room + 1) (base ++ place, v)).map Prod.fst) _ _
      -- The places below the block are those below the blocks that a look at it finds.
      rw [Block.descend_succ_eq, Block.below, ← Block.held_survey, ← Survey.flatMap_stops]
      refine Truncates.flatMap fun g hg => ih ?_
      rintro q what rfl
      exact Defect.Plain.kind_ne (Block.plain_survey v _ hg)

/-! ## Two reports -/

/-- The places of the blocks on a level of a chapter, in the order of the document. -/
def Chapter.placesAt (v : Value) (level : Nat) : List Path :=
  (blocksAt v level).map Prod.fst

theorem Chapter.mem_placesAt {v : Value} {level : Nat} {place : Path} :
    place ∈ placesAt v level ↔ ∃ b, Stands v (.block level) place b := by
  simp only [placesAt, List.mem_map, Prod.exists, mem_blocksAt_iff]
  constructor
  · rintro ⟨_, b, hb, rfl⟩
    exact ⟨b, hb⟩
  · rintro ⟨b, hb⟩
    exact ⟨place, b, hb, rfl⟩

/-- A walk with less room is that with more, cut off one level below its room. -/
theorem Chapter.truncates (limit extra : Nat) (v : Value) :
    Truncates limit (·.kind ≠ .tooDeep) (placesAt v (limit + 1)) (diagnostics (limit + extra) v)
      (diagnostics limit v) := by
  have hstops : placesAt v (limit + 1) = (survey v).flatMap (Finding.stops limit []) := by
    have hunder : Placed.under [] = id := funext fun b => rfl
    rw [Survey.flatMap_stops, held_survey, blocksAt_one, hunder, List.map_id]
    rfl
  rw [hstops]
  refine Truncates.flatMap fun f hf => Finding.truncates ?_
  rintro place what rfl
  exact kind_ne_of_mem_survey hf

/-- Where the walk stops, it tells that the block is too deep and nothing else at or under it. -/
theorem Chapter.not_under_stop {limit : Nat} {v : Value} {place : Path} {d : Diagnostic}
    (hplace : place ∈ placesAt v (limit + 1)) (hd : d ∈ diagnostics limit v)
    (hkind : d.kind ≠ .tooDeep) : ¬place <+: d.path := by
  obtain ⟨b, hb, rfl⟩ := List.mem_map.mp hplace
  obtain ⟨before, after, heq, -, hother⟩ := isolated_block hb (Nat.zero_add (limit + 1))
  rw [heq, List.append_assoc, List.mem_append, List.mem_append] at hd
  rcases hd with hd | hd | hd
  · exact hother d (List.mem_append_left after hd)
  · obtain rfl := List.mem_singleton.mp hd
    exact absurd rfl hkind
  · exact hother d (List.mem_append_right before hd)

/-- **`errors_truncate`** -- the report under a lower limit is the one under a higher limit, cut off
at the blocks one level below the lower limit: what lies at or under them gives way to one
diagnostic each, in the order of the document, and all else is kept. What is told as too deep are
those blocks; and what is in order under the lower limit is so under the higher one. -/
theorem Validator.errors_truncate (strict lax : Validator) (v : Value)
    (hle : strict.limit ≤ lax.limit) :
    Truncates strict.limit
        (fun d => ∀ place ∈ Chapter.placesAt v (strict.limit + 1), ¬place <+: d.path)
        (Chapter.placesAt v (strict.limit + 1)) (lax.report v).errors (strict.report v).errors
      ∧ (Chapter.placesAt v (strict.limit + 1)).Pairwise Path.Apart
      ∧ (∀ place, place ∈ Chapter.placesAt v (strict.limit + 1) ↔
        ∃ b, Stands v (.block (strict.limit + 1)) place b)
      ∧ ((strict.report v).errors.filter (·.kind = .tooDeep)).map Diagnostic.path
        = Chapter.placesAt v (strict.limit + 1)
      ∧ ((strict.report v).errors = [] → (lax.report v).errors = []) := by
  have htruncates : Truncates strict.limit (·.kind ≠ .tooDeep)
      (Chapter.placesAt v (strict.limit + 1)) (lax.report v).errors (strict.report v).errors := by
    obtain ⟨extra, hextra⟩ := Nat.exists_eq_add_of_le hle
    show Truncates _ _ _ (Chapter.diagnostics lax.limit v) (Chapter.diagnostics strict.limit v)
    rw [hextra]
    exact Chapter.truncates strict.limit extra v
  refine ⟨?_, ?_, fun _ => Chapter.mem_placesAt, ?_, ?_⟩
  · -- What is kept is not too deep, so it does not lie where the walk stops.
    exact htruncates.imp fun d hd hkind place hplace => Chapter.not_under_stop hplace hd hkind
  · exact List.pairwise_map.mpr (Chapter.apart_blocksAt v (strict.limit + 1))
  · exact htruncates.paths_eq fun _ hkind => hkind
  · intro hnone
    rw [hnone] at htruncates
    exact htruncates.eq_nil

/-- A quote that holds a listing without content, and a formula in order. -/
def quotedListing : Value :=
  .object
    [("blocks", .array
      [.object
        [("blocks", .array
          [.object [("type", .string "code")],
            .object [("latex", .string "x"), ("type", .string "math")]]),
          ("type", .string "blockquote")]])]

/-- With one level instead of two, what is told of the listing gives way to one diagnostic, and one
is told of the formula. -/
theorem Validator.errors_truncate_quotedListing :
    (withDepth 1 (by decide)).limit ≤ (withDepth 2 (by decide)).limit
      ∧ Chapter.placesAt quotedListing 2
        = [[.field "blocks", .index 0, .field "blocks", .index 0],
          [.field "blocks", .index 0, .field "blocks", .index 1]]
      ∧ Truncates 1 (fun d => ∀ place ∈ Chapter.placesAt quotedListing 2, ¬place <+: d.path)
        (Chapter.placesAt quotedListing 2)
        ((withDepth 2 (by decide)).report quotedListing).errors
        ((withDepth 1 (by decide)).report quotedListing).errors := by
  have hle : (withDepth 1 (by decide)).limit ≤ (withDepth 2 (by decide)).limit := by decide
  have htruncate :=
    errors_truncate (withDepth 1 (by decide)) (withDepth 2 (by decide)) quotedListing hle
  exact ⟨hle, by decide, htruncate.1⟩

end ChapterCheck
