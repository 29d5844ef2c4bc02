/-
# ChapterCheck.Proofs.Workers -- a batch, by any number of workers

A batch in parallel, step by step. A worker takes a path that no one has taken, loads what the path
leads to, and puts what comes of it into the slot of the path. The steps of different workers come
in any order, and no more paths are in hand than there are workers (`Workers.Step`, `Workers.Run`).

What a slot holds never depends on that order: it is what the stage of its path makes of the files
(`Stage.Agrees`), and every step keeps that so. No run gets stuck or goes on for ever, so every run
comes to an end (`Run.exists_finished`), and then the slots are the batch. The main statement is
`Batch.exists_oneByOne`: where the workers can be had, a batch is its paths checked one by one.
-/
import Mathlib.Algebra.GroupWithZero.Nat
import ChapterCheck.Proofs.Batches

namespace ChapterCheck

open Json

namespace Workers

/-! ## Steps -/

/-- How far the work on a path has come. -/
inductive Stage where
  | waiting
  /-- A worker has it in hand. -/
  | taken
  /-- It has been loaded, and the worker has what came of that. -/
  | loaded (result : Except Failure Value)
  /-- What came of it is in its slot. -/
  | filled (entry : Entry)

/-- A worker is at it. -/
def Stage.busy : Stage → Bool
  | .taken => true
  | .loaded _ => true
  | _ => false

/-- The entry in the slot. -/
def Stage.entry? : Stage → Option Entry
  | .filled entry => some entry
  | _ => none

/-- How many steps are left. -/
def Stage.left : Stage → Nat
  | .waiting => 3
  | .taken => 2
  | .loaded _ => 1
  | .filled _ => 0

/-- What a worker does with the path at a place. -/
inductive Act where
  | take (place : Nat)
  | load (place : Nat)
  | finish (place : Nat)

/-- The place whose slot is filled. -/
def Act.finished? : Act → Option Nat
  | .finish place => some place
  | _ => none

/-- **`Step`** -- one step of one of `count` workers. -/
inductive Step (files : Snapshot) (validator : Validator) (count : Nat) (paths : List RawText) :
    Act → List Stage → List Stage → Prop
  | take {stages : List Stage} {place : Nat} : stages[place]? = some .waiting →
      stages.countP Stage.busy < count →
      Step files validator count paths (.take place) stages (stages.set place .taken)
  | load {stages : List Stage} {place : Nat} {path : RawText} : stages[place]? = some .taken →
      paths[place]? = some path →
      Step files validator count paths (.load place) stages
        (stages.set place (.loaded (Chapter.load files path)))
  | finish {stages : List Stage} {place : Nat} {path : RawText} {result : Except Failure Value} :
      stages[place]? = some (.loaded result) → paths[place]? = some path →
      Step files validator count paths (.finish place) stages
        (stages.set place (.filled (Entry.ofLoaded validator path result)))

/-- **`Run`** -- what the workers have done so far, and how far the paths have come by it. -/
inductive Run (files : Snapshot) (validator : Validator) (count : Nat) (paths : List RawText) :
    List Act → List Stage → Prop
  | start : Run files validator count paths [] (List.replicate paths.length .waiting)
  | step {acts : List Act} {act : Act} {stages stages' : List Stage} :
      Run files validator count paths acts stages →
      Step files validator count paths act stages stages' →
      Run files validator count paths (acts ++ [act]) stages'

/-- The places in the order in which their slots were filled. -/
def schedule (acts : List Act) : List Nat :=
  acts.filterMap Act.finished?

/-- The entries in the slots, in the order of the slots. -/
def entries (stages : List Stage) : List Entry :=
  stages.filterMap Stage.entry?

/-- Every slot is filled. -/
def Finished (stages : List Stage) : Prop :=
  ∀ stage ∈ stages, ∃ entry, stage = .filled entry

variable {files : Snapshot} {validator : Validator} {count : Nat} {paths : List RawText}
  {act : Act} {acts : List Act} {stages stages' : List Stage}

/-- A step moves one path from one stage to the next. -/
theorem Step.exists_set (h : Step files validator count paths act stages stages') :
    ∃ place before after, stages[place]? = some before ∧ stages' = stages.set place after
      ∧ before.left = after.left + 1 := by
  cases h with
  | take hstage => exact ⟨_, _, _, hstage, rfl, rfl⟩
  | load hstage => exact ⟨_, _, _, hstage, rfl, rfl⟩
  | finish hstage => exact ⟨_, _, _, hstage, rfl, rfl⟩

/-! ## What the slots hold -/

/-- **`Agrees`** -- a stage holds what the files make of the path. -/
def Stage.Agrees (files : Snapshot) (validator : Validator) (path : RawText) : Stage → Prop
  | .loaded result => result = Chapter.load files path
  | .filled entry => entry = Batch.check files validator path
  | _ => True

/-- **`Sound`** -- there is a stage for each path, and it agrees with the files. -/
structure Sound (files : Snapshot) (validator : Validator) (paths : List RawText)
    (stages : List Stage) : Prop where
  length : stages.length = paths.length
  agrees : ∀ (place : Nat) (path : RawText) (stage : Stage), paths[place]? = some path →
    stages[place]? = some stage → stage.Agrees files validator path

theorem Sound.set (h : Sound files validator paths stages) {place : Nat} {stage : Stage}
    (hstage : ∀ path, paths[place]? = some path → stage.Agrees files validator path) :
    Sound files validator paths (stages.set place stage) where
  length := by rw [List.length_set, h.length]
  agrees := by
    intro i path other hpath hother
    rw [List.getElem?_set] at hother
    split at hother
    · rename_i heq
      subst heq
      split at hother
      · obtain rfl := Option.some.inj hother
        exact hstage path hpath
      · cases hother
    · exact h.agrees i path other hpath hother

/-- One step keeps the stages sound. -/
theorem Step.sound (h : Step files validator count paths act stages stages')
    (hsound : Sound files validator paths stages) : Sound files validator paths stages' := by
  cases h with
  | take => exact hsound.set fun _ _ => trivial
  | load _ hpath =>
    refine hsound.set fun path hpath' => ?_
    obtain rfl := Option.some.inj (hpath.symm.trans hpath')
    rfl
  | @finish _ place path result hstage hpath =>
    refine hsound.set fun path' hpath' => ?_
    obtain rfl := Option.some.inj (hpath.symm.trans hpath')
    have hloaded : result = Chapter.load files path := hsound.agrees _ _ _ hpath hstage
    rw [hloaded, ← Batch.check_eq]
    rfl

/-- And so does a whole run. -/
theorem Run.sound (h : Run files validator count paths acts stages) :
    Sound files validator paths stages := by
  induction h with
  | start =>
    refine ⟨List.length_replicate, ?_⟩
    intro place path stage _ hstage
    rw [List.eq_of_mem_replicate (List.mem_of_getElem? hstage)]
    trivial
  | step _ hstep ih => exact hstep.sound ih

/-- **`entries_eq`** -- when every slot is filled, the slots are the batch. -/
theorem Sound.entries_eq (h : Sound files validator paths stages) (hfinished : Finished stages) :
    entries stages = paths.map (Batch.check files validator) := by
  have hstages : stages = paths.map fun path => .filled (Batch.check files validator path) := by
    apply List.ext_getElem (h.length.trans (List.length_map _).symm)
    intro i hi hi'
    have hpath : i < paths.length := h.length ▸ hi
    obtain ⟨entry, hentry⟩ := hfinished stages[i] (List.getElem_mem hi)
    have hagrees := h.agrees i paths[i] stages[i] (List.getElem?_eq_getElem hpath)
      (List.getElem?_eq_getElem hi)
    rw [hentry] at hagrees ⊢
    rw [List.getElem_map, show entry = Batch.check files validator paths[i] from hagrees]
  rw [hstages, entries, List.filterMap_map]
  exact congrFun List.filterMap_eq_map paths

/-! ## The order in which slots are filled -/

/-- A slot is filled exactly if that is among the acts, and once at most. -/
structure Recorded (acts : List Act) (stages : List Stage) : Prop where
  nodup : (schedule acts).Nodup
  mem_iff : ∀ place, place ∈ schedule acts ↔ ∃ entry, stages[place]? = some (.filled entry)

/-- A step that fills no slot leaves the record as it is. -/
theorem Recorded.set_unfilled (h : Recorded acts stages) {place : Nat} {before after : Stage}
    (hbefore : stages[place]? = some before) (hunfilled : before.entry? = none)
    (hunfilled' : after.entry? = none) (hact : act.finished? = none) :
    Recorded (acts ++ [act]) (stages.set place after) := by
  have hschedule : schedule (acts ++ [act]) = schedule acts := by
    rw [schedule, schedule, List.filterMap_append, List.filterMap_cons_none hact,
      List.filterMap_nil, List.append_nil]
  have hlt : place < stages.length := (List.getElem?_eq_some_iff.mp hbefore).1
  refine ⟨hschedule ▸ h.nodup, fun i => ?_⟩
  rw [hschedule, h.mem_iff]
  by_cases hi : place = i
  · subst hi
    rw [hbefore, List.getElem?_set_self hlt]
    constructor
    · rintro ⟨entry, heq⟩
      rw [Option.some.inj heq] at hunfilled
      cases hunfilled
    · rintro ⟨entry, heq⟩
      rw [Option.some.inj heq] at hunfilled'
      cases hunfilled'
  · rw [List.getElem?_set_ne hi]

/-- One step keeps the record. -/
theorem Step.recorded (h : Step files validator count paths act stages stages')
    (hrecorded : Recorded acts stages) : Recorded (acts ++ [act]) stages' := by
  cases h with
  | take hstage => exact hrecorded.set_unfilled hstage rfl rfl rfl
  | load hstage => exact hrecorded.set_unfilled hstage rfl rfl rfl
  | @finish _ place path result hstage hpath =>
    have hschedule : schedule (acts ++ [.finish place]) = schedule acts ++ [place] :=
      List.filterMap_append
    have hlt : place < stages.length := (List.getElem?_eq_some_iff.mp hstage).1
    have hnew : place ∉ schedule acts := by
      rw [hrecorded.mem_iff, hstage]
      exact nofun
    constructor
    · rw [hschedule, List.nodup_append]
      refine ⟨hrecorded.nodup, List.pairwise_singleton _ _, ?_⟩
      rintro i hi _ hplace rfl
      rw [List.mem_singleton.mp hplace] at hi
      exact hnew hi
    · intro i
      rw [hschedule, List.mem_append, List.mem_singleton, hrecorded.mem_iff]
      by_cases hi : place = i
      · subst hi
        rw [List.getElem?_set_self hlt]
        exact ⟨fun _ => ⟨_, rfl⟩, fun _ => .inr rfl⟩
      · rw [List.getElem?_set_ne hi]
        exact ⟨fun h => h.resolve_right fun heq => hi heq.symm, .inl⟩

theorem Run.recorded (h : Run files validator count paths acts stages) :
    Recorded acts stages := by
  induction h with
  | start =>
    refine ⟨List.Pairwise.nil, fun place => ⟨nofun, ?_⟩⟩
    rintro ⟨entry, hentry⟩
    cases List.eq_of_mem_replicate (List.mem_of_getElem? hentry)
  | step _ hstep ih => exact hstep.recorded ih

/-- When every slot is filled, each has been filled exactly once. -/
theorem Run.schedule_perm (h : Run files validator count paths acts stages)
    (hfinished : Finished stages) : (schedule acts).Perm (List.range paths.length) := by
  rw [List.perm_ext_iff_of_nodup h.recorded.nodup List.nodup_range]
  intro place
  have hlength : stages.length = paths.length := h.sound.length
  rw [h.recorded.mem_iff, List.mem_range, ← hlength]
  constructor
  · rintro ⟨entry, hentry⟩
    exact (List.getElem?_eq_some_iff.mp hentry).1
  · intro hlt
    obtain ⟨entry, hentry⟩ := hfinished stages[place] (List.getElem_mem hlt)
    exact ⟨entry, by rw [List.getElem?_eq_getElem hlt, hentry]⟩

/-! ## Runs come to an end -/

/-- How many steps are left for all paths together. -/
def left (stages : List Stage) : Nat :=
  (stages.map Stage.left).sum

theorem left_set {place : Nat} {before after : Stage} (h : stages[place]? = some before)
    (hleft : before.left = after.left + 1) :
    left stages = left (stages.set place after) + 1 := by
  induction stages generalizing place with
  | nil => cases h
  | cons stage rest ih =>
    cases place with
    | zero =>
      obtain rfl := Option.some.inj h
      simp only [left, List.set_cons_zero, List.map_cons, List.sum_cons]
      omega
    | succ place =>
      have hrest := ih h
      simp only [left, List.set_cons_succ, List.map_cons, List.sum_cons] at hrest ⊢
      omega

theorem Stage.left_eq_zero_iff (stage : Stage) :
    stage.left = 0 ↔ ∃ entry, stage = .filled entry := by
  cases stage with
  | filled entry => exact ⟨fun _ => ⟨entry, rfl⟩, fun _ => rfl⟩
  | _ => exact ⟨nofun, nofun⟩

/-- The slots are all filled exactly when no step is left. -/
theorem left_eq_zero_iff : left stages = 0 ↔ Finished stages := by
  rw [left, List.sum_eq_zero_iff_forall_eq_nat, List.forall_mem_map]
  exact forall₂_congr fun stage _ => stage.left_eq_zero_iff

/-- Every step is one of three for each path. -/
theorem Run.length_add_left (h : Run files validator count paths acts stages) :
    acts.length + left stages = 3 * paths.length := by
  induction h with
  | start =>
    rw [left, List.map_replicate, List.sum_replicate_nat]
    simp [Stage.left, Nat.mul_comm]
  | step _ hstep ih =>
    obtain ⟨place, before, after, hbefore, rfl, hleft⟩ := hstep.exists_set
    have hset := left_set hbefore hleft
    rw [List.length_append, List.length_singleton]
    omega

/-- As long as a slot is empty, some worker can go on. -/
theorem Sound.exists_step (h : Sound files validator paths stages) (hcount : 0 < count)
    (hunfinished : ¬Finished stages) :
    ∃ act stages', Step files validator count paths act stages stages' := by
  have exists_path {place : Nat} {stage : Stage} (hstage : stages[place]? = some stage) :
      ∃ path, paths[place]? = some path := by
    have hlt : place < stages.length := (List.getElem?_eq_some_iff.mp hstage).1
    exact ⟨_, List.getElem?_eq_getElem (h.length ▸ hlt)⟩
  rcases Nat.eq_zero_or_pos (stages.countP Stage.busy) with hidle | hbusy
  · -- No one is at work, so a path that waits can be taken.
    simp only [Finished, Classical.not_forall, not_exists] at hunfinished
    obtain ⟨stage, hmem, hempty⟩ := hunfinished
    obtain ⟨place, hplace⟩ := List.mem_iff_getElem?.mp hmem
    have hnotBusy := List.countP_eq_zero.mp hidle stage hmem
    cases stage with
    | waiting => exact ⟨_, _, .take hplace (hidle ▸ hcount)⟩
    | taken => exact absurd rfl hnotBusy
    | loaded result => exact absurd rfl hnotBusy
    | filled entry => exact absurd rfl (hempty entry)
  · -- A worker that is at work is not kept waiting by anyone.
    obtain ⟨stage, hmem, hbusy⟩ := List.countP_pos_iff.mp hbusy
    obtain ⟨place, hplace⟩ := List.mem_iff_getElem?.mp hmem
    obtain ⟨path, hpath⟩ := exists_path hplace
    cases stage with
    | waiting => cases hbusy
    | taken => exact ⟨_, _, .load hplace hpath⟩
    | loaded result => exact ⟨_, _, .finish hplace hpath⟩
    | filled entry => cases hbusy

/-- **`exists_finished`** -- whatever the workers have done so far, they come to an end. -/
theorem Run.exists_finished (h : Run files validator count paths acts stages)
    (hcount : 0 < count) :
    ∃ more stages', Run files validator count paths (acts ++ more) stages' ∧ Finished stages' := by
  -- By induction on the steps that are left.
  generalize hn : left stages = n
  induction n generalizing acts stages with
  | zero => exact ⟨[], stages, by rwa [List.append_nil], left_eq_zero_iff.mp hn⟩
  | succ n ih =>
    have hunfinished : ¬Finished stages := fun hfinished => by
      rw [left_eq_zero_iff.mpr hfinished] at hn
      cases hn
    obtain ⟨act, stages', hstep⟩ := h.sound.exists_step hcount hunfinished
    have hrun := h.step hstep
    have hlength := hrun.length_add_left
    have hbefore := h.length_add_left
    rw [List.length_append, List.length_singleton] at hlength
    obtain ⟨more, last, hlast, hfinished⟩ := ih hrun (by omega)
    refine ⟨act :: more, last, ?_, hfinished⟩
    rwa [List.append_assoc] at hlast

end Workers

/-! ## A batch is its paths checked one by one -/

/-- **`OneByOne`** -- a batch is what comes of its paths, each for itself, by whatever plan,
schedule or workers it is done. -/
structure Batch.OneByOne (files : Snapshot) (staff : Staff) (validator : Validator) (plan : Plan)
    (paths : List RawText) (batch : Batch) : Prop where
  /-- Every schedule of the plan leads to it. -/
  done : ∀ {schedule : List Nat}, plan.Serves schedule paths →
    Batch.done files staff validator plan schedule paths = .ok batch
  /-- And so does the order of the paths, with one after the other. -/
  sequential : ∀ (threads : Option Nat) (schedule : List Nat),
    Batch.done files staff validator ⟨false, threads⟩ schedule paths = .ok batch
  /-- There is one entry for each path. -/
  length : batch.entries.length = paths.length
  /-- It has the path at its place, and is the entry of a batch of this path alone. -/
  alone : ∀ {place : Nat} {path : RawText} {entry : Entry}, paths[place]? = some path →
    batch.entries[place]? = some entry →
    entry.path = path ∧ ∀ {schedule : List Nat}, plan.Serves schedule [path] →
      Batch.done files staff validator plan schedule [path] = .ok ⟨[entry]⟩
  /-- The batch of the first paths and the batch of the others make up the batch of all. -/
  append : ∀ {first second : List RawText}, paths = first ++ second →
    ∃ before after : Batch, batch.entries = before.entries ++ after.entries
      ∧ (∀ {schedule : List Nat}, plan.Serves schedule first →
        Batch.done files staff validator plan schedule first = .ok before)
      ∧ ∀ {schedule : List Nat}, plan.Serves schedule second →
        Batch.done files staff validator plan schedule second = .ok after
  /-- When workers have filled all slots, the slots are the batch, and the order in which they have
  been filled is a schedule that has every place once and leads to it. -/
  workers : ∀ {count : Nat} {acts : List Workers.Act} {stages : List Workers.Stage},
    Workers.Run files validator count paths acts stages → Workers.Finished stages →
    Workers.entries stages = batch.entries
      ∧ (Workers.schedule acts).Perm (List.range paths.length)
      ∧ Batch.done files staff validator plan (Workers.schedule acts) paths = .ok batch
  /-- Workers never get stuck, and are through with a path in three steps. -/
  finishing : ∀ {count : Nat} {acts : List Workers.Act} {stages : List Workers.Stage}, 0 < count →
    Workers.Run files validator count paths acts stages →
    acts.length ≤ 3 * paths.length ∧ ∃ (more : List Workers.Act) (last : List Workers.Stage),
      Workers.Run files validator count paths (acts ++ more) last ∧ Workers.Finished last

/-- **`exists_oneByOne`** -- unless no worker at all is asked for, a batch for which the workers can
be had succeeds, and it is its paths checked one by one. -/
theorem Batch.exists_oneByOne (files : Snapshot) (staff : Staff) (validator : Validator)
    (plan : Plan) (paths : List RawText)
    (hplan : ¬(plan.parallel = true ∧ plan.threads = some 0)) (hstaff : plan.Manned staff) :
    ∃ batch : Batch, OneByOne files staff validator plan paths batch := by
  refine ⟨⟨paths.map (check files validator)⟩, ?_⟩
  constructor
  case done => exact done_eq hplan hstaff
  case sequential => exact fun _ _ => rfl
  case length => exact List.length_map _
  case alone =>
    intro place path entry hpath hentry
    rw [List.getElem?_map, hpath] at hentry
    obtain rfl := Option.some.inj hentry
    exact ⟨path_check files validator path, done_eq hplan hstaff⟩
  case append =>
    rintro first second rfl
    exact ⟨⟨first.map (check files validator)⟩, ⟨second.map (check files validator)⟩,
      List.map_append, done_eq hplan hstaff, done_eq hplan hstaff⟩
  case workers =>
    intro count acts stages hrun hfinished
    have hperm := hrun.schedule_perm hfinished
    exact ⟨hrun.sound.entries_eq hfinished, hperm,
      done_eq hplan hstaff (plan.serves_of_perm hperm)⟩
  case finishing =>
    intro count acts stages hcount hrun
    have hlength := hrun.length_add_left
    exact ⟨by omega, hrun.exists_finished hcount⟩

/-- A snapshot with a directory, a text that is no document, bytes that are no text, a chapter that
is `null`, and nothing else. -/
def mixedFiles : Snapshot := fun path =>
  match path.text? with
  | some "chapters" => .directory
  | some "torn.json" => .content (Utf8.bytes "\x7b")
  | some "bytes.json" => .content [0x22, 0xff, 0x22]
  | some "null.json" => .content (Utf8.bytes "null")
  | _ => .refused .notFound

/-- Six paths into it: one stands twice, and one is no text. -/
def mixedPaths : List RawText :=
  [.ofString "null.json", .ofString "chapters", ⟨[0xff]⟩, .ofString "bytes.json",
    .ofString "null.json", .ofString "torn.json"]

/-- Two workers, and there are no more, do a batch in which only one kind of file can be loaded. -/
theorem Batch.exists_oneByOne_mixed :
    ¬((⟨true, some 2⟩ : Plan).parallel = true ∧ (⟨true, some 2⟩ : Plan).threads = some 0)
      ∧ (⟨true, some 2⟩ : Plan).Manned (staffOf 2)
      ∧ ∃ batch : Batch, OneByOne mixedFiles (staffOf 2) .standard ⟨true, some 2⟩ mixedPaths batch
        ∧ batch.entries.map Entry.unreadable = [false, true, true, true, false, true] := by
  have hplan : ¬((⟨true, some 2⟩ : Plan).parallel = true
      ∧ (⟨true, some 2⟩ : Plan).threads = some 0) := by decide
  have hstaff : (⟨true, some 2⟩ : Plan).Manned (staffOf 2) := fun _ => rfl
  obtain ⟨batch, hbatch⟩ :=
    exists_oneByOne mixedFiles (staffOf 2) .standard ⟨true, some 2⟩ mixedPaths hplan hstaff
  refine ⟨hplan, hstaff, batch, hbatch, ?_⟩
  rw [← Except.ok.inj (hbatch.sequential none [])]
  decide +kernel

end ChapterCheck
