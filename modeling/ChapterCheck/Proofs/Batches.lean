/-
# ChapterCheck.Proofs.Batches -- the schedule of a batch does not show

In parallel, what comes of a path is put into the slot of that path, so the order in which the slots
are filled is not to be seen in the batch. A schedule may fill the slots in any order, as long as it
leaves none empty (`Plan.Serves`); then the batch is what comes of the paths one after the other.
There is no batch only if no worker at all is asked for, or they cannot be had
(`Batch.done_eq_ok_iff`).
-/
import ChapterCheck.Batch

namespace ChapterCheck

open Json

/-! ## Entries -/

/-- What comes of a path, after what has been loaded from it. -/
def Entry.ofLoaded (validator : Validator) (path : RawText) : Except Failure Value → Entry
  | .ok chapter => ⟨path, Chapter.id? chapter, .checked (validator.report chapter)⟩
  | .error failure => ⟨path, none, .unreadable failure⟩

theorem Batch.check_eq (files : Snapshot) (validator : Validator) (path : RawText) :
    check files validator path = Entry.ofLoaded validator path (Chapter.load files path) := by
  unfold check Entry.ofLoaded
  cases Chapter.load files path <;> rfl

theorem Batch.path_check (files : Snapshot) (validator : Validator) (path : RawText) :
    (check files validator path).path = path := by
  unfold check
  split <;> rfl

/-! ## Slots -/

/-- The slots after one item has been worked on: what came of it is in its slot. -/
def Batch.fill {α β : Type} (work : α → β) (items : List α) (slots : List (Option β))
    (place : Nat) : List (Option β) :=
  match items[place]? with
  | some item => slots.set place (some (work item))
  | none => slots

section Slots

variable {α β : Type} {work : α → β} {items : List α} {slots : List (Option β)}

theorem Batch.inSlots_eq_foldl (schedule : List Nat) :
    inSlots work items schedule
      = schedule.foldl (fill work items) (List.replicate items.length none) :=
  rfl

theorem Batch.length_fill (slots : List (Option β)) (place : Nat) :
    (fill work items slots place).length = slots.length := by
  unfold fill
  split
  · exact List.length_set
  · rfl

/-- One item fills its own slot and no other. -/
theorem Batch.getElem?_fill (hlength : slots.length = items.length) (place i : Nat) :
    (fill work items slots place)[i]?
      = if i = place then items[i]?.map (some ∘ work) else slots[i]? := by
  unfold fill
  split
  · rename_i item hitem
    have hin : place < slots.length := by
      rw [hlength]
      exact (List.getElem?_eq_some_iff.mp hitem).1
    by_cases hi : i = place
    · rw [if_pos hi, hi, List.getElem?_set_self hin, hitem]
      rfl
    · rw [if_neg hi, List.getElem?_set_ne (Ne.symm hi)]
  · rename_i hitem
    -- The place lies behind the last item, and there is no slot either.
    by_cases hi : i = place
    · have hout : slots.length ≤ place := by
        rw [hlength]
        exact List.getElem?_eq_none_iff.mp hitem
      rw [if_pos hi, hi, hitem, List.getElem?_eq_none_iff.mpr hout]
      rfl
    · rw [if_neg hi]

/-- What is in a slot after a schedule: what came of its item if the schedule has the place, and
otherwise what was there before. -/
theorem Batch.getElem?_foldl_fill (schedule : List Nat) (hlength : slots.length = items.length)
    (i : Nat) :
    (schedule.foldl (fill work items) slots)[i]?
      = if i ∈ schedule then items[i]?.map (some ∘ work) else slots[i]? := by
  induction schedule generalizing slots with
  | nil => rw [List.foldl_nil, if_neg List.not_mem_nil]
  | cons place rest ih =>
    rw [List.foldl_cons, ih (by rw [length_fill, hlength]), getElem?_fill hlength]
    by_cases hrest : i ∈ rest
    · rw [if_pos hrest, if_pos (List.mem_cons_of_mem place hrest)]
    · rw [if_neg hrest]
      by_cases hi : i = place
      · rw [if_pos hi, if_pos (List.mem_cons.mpr (.inl hi))]
      · rw [if_neg hi, if_neg fun hmem => (List.mem_cons.mp hmem).elim hi hrest]

/-- The slots of the places that a schedule has are filled, and the others are empty. -/
theorem Batch.getElem?_inSlots (schedule : List Nat) (i : Nat) :
    (inSlots work items schedule)[i]?
      = if i ∈ schedule then items[i]?.map (some ∘ work)
        else (List.replicate items.length none)[i]? := by
  rw [inSlots_eq_foldl, getElem?_foldl_fill schedule List.length_replicate]

/-- **`inSlots_eq`** -- a schedule that has every place fills every slot with what came of its
item. -/
theorem Batch.inSlots_eq {schedule : List Nat} (h : ∀ place < items.length, place ∈ schedule) :
    inSlots work items schedule = items.map (some ∘ work) := by
  apply List.ext_getElem?
  intro i
  rw [getElem?_inSlots, List.getElem?_map]
  split
  · rfl
  · rename_i hi
    have hout : items.length ≤ i := Nat.le_of_not_lt fun hlt => hi (h i hlt)
    have hempty : (List.replicate items.length (none : Option β))[i]? = none := by
      rw [List.getElem?_eq_none_iff, List.length_replicate]
      exact hout
    rw [hempty, List.getElem?_eq_none_iff.mpr hout]
    rfl

end Slots

/-! ## Schedules and plans -/

/-- A schedule **`Serves`** a plan for some paths -- in parallel it has the place of every path. -/
def Plan.Serves (plan : Plan) (schedule : List Nat) (paths : List RawText) : Prop :=
  plan.parallel = true → ∀ place < paths.length, place ∈ schedule

/-- A schedule that has every place exactly once serves any plan. -/
theorem Plan.serves_of_perm {schedule : List Nat} {paths : List RawText}
    (h : schedule.Perm (List.range paths.length)) (plan : Plan) : plan.Serves schedule paths := by
  intro _ place hplace
  exact h.mem_iff.mpr (List.mem_range.mpr hplace)

/-- A plan is **`Manned`** -- if it is parallel, the workers that it asks for can be had. -/
def Plan.Manned (plan : Plan) (staff : Staff) : Prop :=
  plan.parallel = true → staff plan.threads = .ok ()

/-- A staff of so many workers. -/
def staffOf (most : Nat) : Staff := fun threads =>
  if threads.getD 1 ≤ most then .ok ()
  else .error "Resource temporarily unavailable (os error 11)"

section Plans

variable {files : Snapshot} {staff : Staff} {validator : Validator} {plan : Plan}
  {schedule : List Nat} {paths : List RawText}

/-- **`done_eq`** -- a plan that makes sense and is manned has the paths checked one by one,
whatever the schedule. -/
theorem Batch.done_eq (hplan : ¬(plan.parallel = true ∧ plan.threads = some 0))
    (hstaff : plan.Manned staff) (hschedule : plan.Serves schedule paths) :
    done files staff validator plan schedule paths
      = .ok ⟨paths.map (check files validator)⟩ := by
  unfold done
  split
  · rename_i hparallel
    rw [if_neg fun hthreads => hplan ⟨hparallel, hthreads⟩, hstaff hparallel,
      inSlots_eq (hschedule hparallel), List.filterMap_map]
    show Except.ok (Batch.mk _) = _
    congr 2
    exact congrFun List.filterMap_eq_map paths
  · rfl

/-- **`done_eq_ok_iff`** -- no other plan has a batch. -/
theorem Batch.done_eq_ok_iff (hschedule : plan.Serves schedule paths) {b : Batch} :
    done files staff validator plan schedule paths = .ok b ↔
      ¬(plan.parallel = true ∧ plan.threads = some 0) ∧ plan.Manned staff
        ∧ b = ⟨paths.map (check files validator)⟩ := by
  constructor
  · intro h
    have hplan : ¬(plan.parallel = true ∧ plan.threads = some 0) := by
      rintro ⟨hparallel, hthreads⟩
      rw [done, if_pos hparallel, if_pos hthreads] at h
      cases h
    have hstaff : plan.Manned staff := by
      intro hparallel
      rw [done, if_pos hparallel, if_neg fun hthreads => hplan ⟨hparallel, hthreads⟩] at h
      split at h
      · cases h
      · assumption
    rw [done_eq hplan hstaff hschedule] at h
    exact ⟨hplan, hstaff, (Except.ok.inj h).symm⟩
  · rintro ⟨hplan, hstaff, rfl⟩
    exact done_eq hplan hstaff hschedule

/-- Three workers, where there are two. -/
example : Batch.done files (staffOf 2) validator ⟨true, some 3⟩ schedule paths
    = .error (.noWorkers "Resource temporarily unavailable (os error 11)") := rfl

/-- A batch that is not done has not looked at any file. -/
theorem Batch.done_error_congr {files' : Snapshot} {m : Misconfiguration}
    (h : done files staff validator plan schedule paths = .error m) :
    done files' staff validator plan schedule paths = .error m := by
  unfold Batch.done at h ⊢
  split at h <;> rename_i hparallel
  · rw [if_pos hparallel]
    split at h <;> rename_i hthreads
    · rwa [if_pos hthreads]
    · rw [if_neg hthreads]
      split at h
      · exact h
      · cases h
  · cases h

end Plans

end ChapterCheck
