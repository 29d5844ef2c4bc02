/-
# ChapterCheck.Proofs.Walk -- what the walk tells of one block

All diagnostics of a finding lie at or under its place (`Finding.prefix_of_mem_diagnose`), and no
other finding of the same survey tells of anything there. So the walk keeps what it tells of a block
together: `Isolated` says that some diagnostics stand in a row and are those at or under a place,
and `Chapter.isolated_block` says so of every block that the walk reaches.
-/
import ChapterCheck.Proofs.Apart

namespace ChapterCheck

open Json

/-! ## Where diagnostics lie -/

/-- Every diagnostic of a finding lies at its place or under it. -/
theorem Finding.prefix_of_mem_diagnose {limit room : Nat} {base : Path} {f : Finding}
    {d : Diagnostic} (hd : d ∈ f.diagnose limit room base) : base ++ f.place <+: d.path := by
  -- By induction on the room: what a block holds is told under the place of the block.
  induction room generalizing base f with
  | zero =>
    cases f <;> obtain rfl := List.mem_singleton.mp hd <;> exact List.prefix_rfl
  | succ room ih =>
    cases f with
    | defect place what =>
      obtain rfl := List.mem_singleton.mp hd
      exact List.prefix_rfl
    | block place v =>
      obtain ⟨g, -, hd⟩ := List.mem_flatMap.mp hd
      exact (List.prefix_append _ _).trans (ih hd)

/-- What is told of a finding does not lie under a block that the finding is clear of. -/
theorem Finding.Clear.not_under {limit room : Nat} {base place : Path} {v : Value} {f : Finding}
    (hclear : (Finding.block place v).Clear f) {d : Diagnostic}
    (hd : d ∈ f.diagnose limit room base) : ¬base ++ place <+: d.path := by
  cases f with
  | defect q what =>
    rw [diagnose_defect, List.mem_singleton] at hd
    rw [hd, Defect.diagnostic_path, List.prefix_append_right_inj]
    exact hclear
  | block q w =>
    have happart : Path.Apart (base ++ place) (base ++ q) := Path.apart_append_iff.mpr hclear
    exact (happart.extend List.prefix_rfl (prefix_of_mem_diagnose hd)).1

theorem Finding.Clear.symm {f g : Finding} (h : f.Clear g) : g.Clear f := by
  cases f <;> cases g
  · trivial
  · exact h
  · exact h
  · exact ⟨h.2, h.1⟩

/-! ## The diagnostics of one block -/

/-- **`Isolated`** -- the diagnostics of a run stand in a row among all, and are those that lie at
or under a place. -/
def Isolated (place : Path) (run all : List Diagnostic) : Prop :=
  ∃ before after, all = before ++ run ++ after ∧ (∀ d ∈ run, place <+: d.path)
    ∧ ∀ d ∈ before ++ after, ¬place <+: d.path

theorem Isolated.self {place : Path} {run : List Diagnostic} (h : ∀ d ∈ run, place <+: d.path) :
    Isolated place run run :=
  ⟨[], [], (List.append_nil run).symm, h, nofun⟩

/-- What lies outside an outer place lies outside every inner one as well. -/
theorem not_under_append {inner outer : Path} {first before after last : List Diagnostic}
    (hinner : ∀ d ∈ before ++ after, ¬inner <+: d.path)
    (houter : ∀ d ∈ first ++ last, ¬outer <+: d.path) (hle : outer <+: inner) :
    ∀ d ∈ first ++ before ++ (after ++ last), ¬inner <+: d.path := by
  intro d hd hunder
  rcases List.mem_append.mp hd with hd | hd <;> rcases List.mem_append.mp hd with hd | hd
  · exact houter d (List.mem_append_left last hd) (hle.trans hunder)
  · exact hinner d (List.mem_append_left after hd) hunder
  · exact hinner d (List.mem_append_right before hd) hunder
  · exact houter d (List.mem_append_right first hd) (hle.trans hunder)

/-- What is isolated within an isolated run is isolated. -/
theorem Isolated.trans {inner outer : Path} {run mid all : List Diagnostic}
    (hrun : Isolated inner run mid) (hmid : Isolated outer mid all) (hle : outer <+: inner) :
    Isolated inner run all := by
  obtain ⟨before, after, rfl, hunder, hother⟩ := hrun
  obtain ⟨first, last, rfl, -, houter⟩ := hmid
  exact ⟨first ++ before, after ++ last, by simp only [List.append_assoc], hunder,
    not_under_append hother houter hle⟩

/-- What is told in front of a block and behind it is not told at or under the block. -/
theorem Survey.not_under_of_clear {limit room : Nat} {base place : Path} {v : Value}
    {before after : Survey}
    (h : (before ++ .block place v :: after).Pairwise Finding.Clear) :
    ∀ d ∈ Survey.diagnose limit room base before ++ Survey.diagnose limit room base after,
      ¬base ++ place <+: d.path := by
  rw [List.pairwise_append, List.pairwise_cons] at h
  obtain ⟨-, ⟨hafter, -⟩, hbefore⟩ := h
  intro d hd
  rcases List.mem_append.mp hd with hd | hd
  · obtain ⟨f, hf, hd⟩ := List.mem_flatMap.mp hd
    exact (hbefore f hf _ List.mem_cons_self).symm.not_under hd
  · obtain ⟨f, hf, hd⟩ := List.mem_flatMap.mp hd
    exact (hafter f hf).not_under hd

/-- A block that a survey finds is isolated in what is told of the survey. -/
theorem Survey.isolated_of_mem {limit room : Nat} {base place : Path} {v : Value} {s : Survey}
    (hs : s.Pairwise Finding.Clear) (hmem : .block place v ∈ s) :
    Isolated (base ++ place) (Finding.diagnose limit room base (.block place v))
      (s.diagnose limit room base) := by
  obtain ⟨before, after, rfl⟩ := List.append_of_mem hmem
  refine ⟨Survey.diagnose limit room base before, Survey.diagnose limit room base after, ?_, ?_,
    Survey.not_under_of_clear hs⟩
  · simp only [Survey.diagnose, List.flatMap_append, List.flatMap_cons, List.append_assoc]
  · exact fun d hd => Finding.prefix_of_mem_diagnose hd

/-- What the walk tells of a block at its place, when there are `room` levels left. -/
def Block.diagnostics (limit room : Nat) (b : Placed) : List Diagnostic :=
  Finding.diagnose limit room [] (.block b.1 b.2)

theorem Finding.diagnose_block_eq (limit room : Nat) (base place : Path) (v : Value) :
    diagnose limit room base (.block place v) = Block.diagnostics limit room (base ++ place, v) :=
  diagnose_under limit room [] base (.block place v) ▸ rfl

namespace Block

/-- Where there is room, a block is told by what a look at it finds. -/
theorem diagnostics_succ (limit room : Nat) (place : Path) (v : Value) :
    diagnostics limit (room + 1) (place, v) = (survey v).diagnose limit room place := by
  rw [diagnostics, Finding.diagnose_block_succ, List.nil_append]

theorem prefix_of_mem_descend {levels : Nat} {a b : Placed} (h : b ∈ descend levels a) :
    a.1 <+: b.1 := by
  induction levels generalizing a with
  | zero =>
    obtain rfl := List.mem_singleton.mp h
    exact List.prefix_rfl
  | succ levels ih =>
    rw [descend_succ_eq] at h
    obtain ⟨c, hc, hb⟩ := List.mem_flatMap.mp h
    obtain ⟨c, -, rfl⟩ := List.mem_map.mp hc
    exact (List.prefix_append _ _).trans (ih hb)

/-- A block that another holds is isolated in what is told of that one. -/
theorem isolated_of_mem_below {limit room : Nat} {a b : Placed} (h : b ∈ below a) :
    Isolated b.1 (diagnostics limit room b) (diagnostics limit (room + 1) a) := by
  obtain ⟨⟨inner, v⟩, hnested, rfl⟩ := List.mem_map.mp h
  rw [← held_survey, Survey.mem_held] at hnested
  rw [Placed.under, ← Finding.diagnose_block_eq]
  exact Survey.isolated_of_mem (clear_survey a.2) hnested

/-- A block that lies some levels below another is isolated in what is told of that one. -/
theorem isolated_of_mem_descend {limit room levels : Nat} {a b : Placed}
    (h : b ∈ descend levels a) :
    Isolated b.1 (diagnostics limit room b) (diagnostics limit (room + levels) a) := by
  induction levels generalizing a with
  | zero =>
    obtain rfl := List.mem_singleton.mp h
    exact Isolated.self fun d hd => Finding.prefix_of_mem_diagnose hd
  | succ levels ih =>
    rw [descend_succ_eq] at h
    obtain ⟨c, hc, hb⟩ := List.mem_flatMap.mp h
    exact (ih hb).trans (isolated_of_mem_below hc) (prefix_of_mem_descend hb)

end Block

/-- **`isolated_block`** -- what is told at and under a block that the walk reaches stands in a row,
and is what the walk tells of the block with the levels that are left to it. -/
theorem Chapter.isolated_block {limit room level : Nat} {v : Value} {b : Placed}
    (h : b ∈ blocksAt v level) (hroom : room + level = limit + 1) :
    Isolated b.1 (Block.diagnostics limit room b) (diagnostics limit v) := by
  cases level with
  | zero => cases h
  | succ level =>
    -- The way down begins at one of the blocks of level one.
    obtain ⟨⟨place, w⟩, ha, hb⟩ := List.mem_flatMap.mp h
    rw [← blocksAt_one, ← held_survey, Survey.mem_held] at ha
    obtain rfl : room + level = limit := by omega
    have htop : Isolated place (Block.diagnostics (room + level) (room + level) (place, w))
        (diagnostics (room + level) v) := Survey.isolated_of_mem (clear_survey v) ha
    exact (Block.isolated_of_mem_descend hb).trans htop (Block.prefix_of_mem_descend hb)

/-! ## Below the limit -/

/-- What is isolated is all that lies at or under its place. -/
theorem Isolated.filter_eq {place : Path} {run all : List Diagnostic} (h : Isolated place run all) :
    all.filter (place <+: ·.path) = run := by
  obtain ⟨before, after, rfl, hunder, hother⟩ := h
  rw [List.forall_mem_append] at hother
  have hnone {ds : List Diagnostic} (hds : ∀ d ∈ ds, ¬place <+: d.path) :
      ds.filter (place <+: ·.path) = [] := by
    rw [List.filter_eq_nil_iff]
    intro d hd
    rw [decide_eq_true_eq]
    exact hds d hd
  have hall : run.filter (place <+: ·.path) = run := by
    rw [List.filter_eq_self]
    intro d hd
    exact decide_eq_true (hunder d hd)
  rw [List.filter_append, List.filter_append, hnone hother.1, hnone hother.2, hall,
    List.nil_append, List.append_nil]

/-- A block stands at or under a block on every level down to its own. -/
theorem Stands.exists_block_above {v b : Value} {level above : Nat} {place : Path}
    (h : Stands v (.block level) place b) (hpos : 0 < above) (hle : above ≤ level) :
    ∃ outer w, outer <+: place ∧ Stands v (.block above) outer w := by
  induction level generalizing place b with
  | zero => omega
  | succ level ih =>
    rcases Nat.eq_or_lt_of_le hle with rfl | hlt
    · exact ⟨place, b, List.prefix_rfl, h⟩
    · rcases h.block_cases with ⟨hone, -⟩ | ⟨_, outer, block, inner, hsucc, rfl, houter, -, -⟩
      · omega
      · obtain rfl := Nat.succ.inj hsucc
        obtain ⟨place, w, hplace, hw⟩ := ih houter (Nat.le_of_lt_succ hlt)
        exact ⟨place, w, hplace.trans (List.prefix_append outer inner), hw⟩

/-- At and under a block below the limit nothing is told, other than that the block itself is too
deep. -/
theorem Chapter.eq_tooDeep_of_under {limit level : Nat} {v b : Value} {place : Path}
    (h : Stands v (.block level) place b) (hlevel : limit < level) {d : Diagnostic}
    (hd : d ∈ diagnostics limit v) (hunder : place <+: d.path) :
    d = (Defect.tooDeep limit).diagnostic place := by
  -- The walk stops one level below the limit, at or above the block.
  obtain ⟨outer, w, houter, hstands⟩ := h.exists_block_above (Nat.succ_pos limit) hlevel
  have hisolated := isolated_block (mem_blocksAt_iff.mpr hstands) (Nat.zero_add (limit + 1))
  have hmem : d ∈ (diagnostics limit v).filter (outer <+: ·.path) :=
    List.mem_filter.mpr ⟨hd, decide_eq_true (houter.trans hunder)⟩
  rw [hisolated.filter_eq] at hmem
  obtain rfl : d = (Defect.tooDeep limit).diagnostic outer := List.mem_singleton.mp hmem
  obtain rfl : outer = place := houter.eq_of_length_le hunder.length_le
  rfl

end ChapterCheck
