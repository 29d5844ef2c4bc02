/-
# ChapterCheck.Proofs.Rendering -- what the written form of a path says of it

A written path is made of its names, of digits, and of the marks that set off its steps: a dot, an
opening and a closing bracket. So no other sign is in it that is in no name
(`Path.not_mem_render`). If all names are `Plain`, that is, there is something in them and no mark,
the written form tells one path from another (`Path.render_injective`).

The boundary between a step and the next is found again because a name ends where a mark stands, and
digits end where the bracket is closed (`append_inj_of_stop`).
-/
import ChapterCheck.Path

namespace ChapterCheck

/-! ## Texts up to a mark -/

/-- Two texts in which no mark stands are the same if they can be followed so, from a mark on, that
the whole is the same; and so is what follows them. -/
theorem append_inj_of_stop {stop : Char → Prop} {s t u v : List Char}
    (hs : ∀ c ∈ s, ¬stop c) (ht : ∀ c ∈ t, ¬stop c) (hu : ∀ c ∈ u.head?, stop c)
    (hv : ∀ c ∈ v.head?, stop c) (h : s ++ u = t ++ v) : s = t ∧ u = v := by
  induction s generalizing t with
  | nil =>
    cases t with
    | nil => exact ⟨rfl, h⟩
    | cons d t =>
      rw [List.nil_append] at h
      rw [h] at hu
      exact absurd (hu d rfl) (ht d List.mem_cons_self)
  | cons c s ih =>
    cases t with
    | nil =>
      rw [List.nil_append] at h
      rw [← h] at hv
      exact absurd (hv c rfl) (hs c List.mem_cons_self)
    | cons d t =>
      obtain ⟨rfl, htail⟩ := List.cons.inj h
      rw [List.forall_mem_cons] at hs ht
      obtain ⟨rfl, hrest⟩ := ih hs.2 ht.2 htail
      exact ⟨rfl, hrest⟩

theorem isDigit_of_mem_repr {n : Nat} {c : Char} (h : c ∈ (Nat.repr n).toList) : c.isDigit := by
  rw [Nat.toList_repr] at h
  exact Nat.isDigit_of_mem_toDigits (by decide) (by decide) h

theorem repr_injective {m n : Nat} (h : (Nat.repr m).toList = (Nat.repr n).toList) : m = n := by
  have hdigits := congrArg (Nat.ofDigitChars 10 · 0) h
  simpa only [Nat.toList_repr, Nat.ofDigitChars_ten_toDigits] using hdigits

/-! ## The signs of a written path -/

theorem Step.toList_bracketed (place : Nat) :
    (bracketed place).toList = '[' :: ((Nat.repr place).toList ++ [']']) := by
  rw [bracketed, String.toList_append, String.toList_append]
  rfl

theorem Path.toList_trail_field (name : String) (rest : List Step) :
    (trail (.field name :: rest)).toList = '.' :: (name.toList ++ (trail rest).toList) := by
  rw [trail, Step.following, String.toList_append, String.toList_append]
  rfl

theorem Path.toList_trail_index (place : Nat) (rest : List Step) :
    (trail (.index place :: rest)).toList
      = '[' :: ((Nat.repr place).toList ++ ']' :: (trail rest).toList) := by
  rw [trail, Step.following, String.toList_append, Step.toList_bracketed, List.cons_append,
    List.append_assoc]
  rfl

/-- A path that begins with a place is written as it would be behind another step, and one that
begins with a name without the dot in front. -/
theorem Path.toList_render_field (name : String) (rest : List Step) :
    (render (.field name :: rest)).toList = name.toList ++ (trail rest).toList := by
  rw [render, Step.leading, String.toList_append]

theorem Path.render_index (place : Nat) (rest : List Step) :
    render (.index place :: rest) = trail (.index place :: rest) := rfl

/-- Behind a step stands nothing or a mark. -/
theorem Path.mark_of_head?_trail {steps : List Step} {c : Char}
    (h : c ∈ (trail steps).toList.head?) : c = '.' ∨ c = '[' := by
  cases steps with
  | nil => cases h
  | cons step rest =>
    cases step with
    | field name =>
      rw [toList_trail_field] at h
      exact .inl (Option.some.inj h).symm
    | index place =>
      rw [toList_trail_index] at h
      exact .inr (Option.some.inj h).symm

section Signs

variable {c : Char} (hmark : c ∉ ['.', '[', ']']) (hdigit : c.isDigit = false)

include hmark hdigit

theorem Path.not_mem_trail : ∀ {steps : List Step},
    (∀ name, .field name ∈ steps → c ∉ name.toList) → c ∉ (trail steps).toList
  | [], _ => List.not_mem_nil
  | .field name :: rest, h => by
    have hrest := not_mem_trail fun other hother => h other (List.mem_cons_of_mem _ hother)
    have hdot : c ≠ '.' := fun heq => hmark (heq ▸ List.mem_cons_self)
    rw [toList_trail_field, List.mem_cons, List.mem_append]
    rintro (hc | hc | hc)
    · exact hdot hc
    · exact h name List.mem_cons_self hc
    · exact hrest hc
  | .index place :: rest, h => by
    have hrest := not_mem_trail fun other hother => h other (List.mem_cons_of_mem _ hother)
    rw [toList_trail_index, List.mem_cons, List.mem_append, List.mem_cons]
    rintro (hc | hc | hc | hc)
    · exact hmark (by simp [hc])
    · exact absurd (isDigit_of_mem_repr hc) (Bool.not_eq_true _ ▸ hdigit)
    · exact hmark (by simp [hc])
    · exact hrest hc

/-- **`not_mem_render`** -- a sign that is neither a mark nor a digit and in no name is not in the
written form of a path. -/
theorem Path.not_mem_render {path : Path} (h : ∀ name, .field name ∈ path → c ∉ name.toList) :
    c ∉ path.render.toList := by
  match path with
  | [] => exact List.not_mem_nil
  | .index place :: rest =>
    rw [render_index]
    exact not_mem_trail hmark hdigit h
  | .field name :: rest =>
    have hrest := not_mem_trail hmark hdigit fun other hother =>
      h other (List.mem_cons_of_mem _ hother)
    rw [toList_render_field, List.mem_append]
    rintro (hc | hc)
    · exact h name List.mem_cons_self hc
    · exact hrest hc

end Signs

/-! ## Written paths told apart -/

/-- A path is **`Plain`** if there is something in each of its names, and no mark of a step. -/
def Path.Plain (path : Path) : Prop :=
  ∀ name, .field name ∈ path → name ≠ "" ∧ '.' ∉ name.toList ∧ '[' ∉ name.toList

theorem Path.Plain.tail {step : Step} {rest : List Step} (h : Plain (step :: rest)) : Plain rest :=
  fun name hname => h name (List.mem_cons_of_mem step hname)

/-- A name ends where the next step begins. -/
theorem Path.Plain.append_inj {m n : String} {p q : List Step} (hp : Plain (.field m :: p))
    (hq : Plain (.field n :: q))
    (h : m.toList ++ (trail p).toList = n.toList ++ (trail q).toList) :
    m = n ∧ (trail p).toList = (trail q).toList := by
  have no_mark {name : String} {rest : List Step} (hplain : Plain (.field name :: rest)) :
      ∀ c ∈ name.toList, ¬(c = '.' ∨ c = '[') := by
    obtain ⟨-, hdot, hbracket⟩ := hplain name List.mem_cons_self
    rintro c hc (rfl | rfl)
    · exact hdot hc
    · exact hbracket hc
  obtain ⟨hname, hrest⟩ := append_inj_of_stop (no_mark hp) (no_mark hq)
    (fun c hc => mark_of_head?_trail hc) (fun c hc => mark_of_head?_trail hc) h
  exact ⟨String.toList_inj.mp hname, hrest⟩

/-- A place ends where its bracket is closed. -/
theorem Path.bracketed_append_inj {i j : Nat} {u v : List Char}
    (h : (Nat.repr i).toList ++ ']' :: u = (Nat.repr j).toList ++ ']' :: v) : i = j ∧ u = v := by
  have no_bracket (n : Nat) : ∀ c ∈ (Nat.repr n).toList, ¬c = ']' := by
    rintro c hc rfl
    exact absurd (isDigit_of_mem_repr hc) (by decide)
  have head_bracket (w : List Char) : ∀ c ∈ (']' :: w).head?, c = ']' :=
    fun c hc => (Option.some.inj hc).symm
  obtain ⟨hdigits, htail⟩ :=
    append_inj_of_stop (no_bracket i) (no_bracket j) (head_bracket u) (head_bracket v) h
  exact ⟨repr_injective hdigits, (List.cons.inj htail).2⟩

theorem Path.trail_injective {p q : List Step} (hp : Plain p) (hq : Plain q)
    (h : (trail p).toList = (trail q).toList) : p = q := by
  induction p generalizing q with
  | nil =>
    cases q with
    | nil => rfl
    | cons step rest =>
      cases step with
      | field name => rw [toList_trail_field] at h; cases h
      | index place => rw [toList_trail_index] at h; cases h
  | cons step rest ih =>
    -- The mark in front says which of the two a step is.
    cases step with
    | field m =>
      rw [toList_trail_field] at h
      cases q with
      | nil => cases h
      | cons step' rest' =>
        cases step' with
        | field n =>
          rw [toList_trail_field] at h
          obtain ⟨rfl, hrest⟩ := hp.append_inj hq (List.cons.inj h).2
          rw [ih hp.tail hq.tail hrest]
        | index place =>
          rw [toList_trail_index] at h
          exact absurd (List.cons.inj h).1 (by decide)
    | index i =>
      rw [toList_trail_index] at h
      cases q with
      | nil => cases h
      | cons step' rest' =>
        cases step' with
        | field n =>
          rw [toList_trail_field] at h
          exact absurd (List.cons.inj h).1 (by decide)
        | index j =>
          rw [toList_trail_index] at h
          obtain ⟨rfl, hrest⟩ := bracketed_append_inj (List.cons.inj h).2
          rw [ih hp.tail hq.tail hrest]

/-- What is written of a path that begins with a name begins with a sign that is no mark. -/
theorem Path.Plain.head?_render {name : String} {rest : List Step}
    (h : Plain (.field name :: rest)) : ∃ c, c ∈ (render (.field name :: rest)).toList.head?
      ∧ c ≠ '[' := by
  obtain ⟨hne, -, hbracket⟩ := h name List.mem_cons_self
  rw [toList_render_field]
  cases hname : name.toList with
  | nil => exact absurd (String.toList_eq_nil_iff.mp hname) hne
  | cons c cs =>
    refine ⟨c, rfl, ?_⟩
    rintro rfl
    exact hbracket (hname ▸ List.mem_cons_self)

/-- **`render_injective`** -- paths whose names are plain are the same if they are written the
same. -/
theorem Path.render_injective {p q : Path} (hp : p.Plain) (hq : q.Plain)
    (h : p.render = q.render) : p = q := by
  -- A path that begins with a place is never written like one that begins with a name.
  have differ {name : String} {place : Nat} {rest rest' : List Step}
      (hname : Plain (.field name :: rest)) :
      render (.field name :: rest) ≠ render (.index place :: rest') := by
    intro heq
    obtain ⟨c, hc, hne⟩ := hname.head?_render
    rw [heq, render_index, toList_trail_index] at hc
    exact hne (Option.some.inj hc).symm
  have nonempty {step : Step} {rest : List Step} (hplain : Plain (step :: rest)) :
      render (step :: rest) ≠ "" := by
    intro heq
    cases step with
    | field name =>
      obtain ⟨c, hc, -⟩ := hplain.head?_render
      rw [heq] at hc
      cases hc
    | index place =>
      rw [render_index, ← String.toList_inj, toList_trail_index] at heq
      cases heq
  match p, q with
  | [], [] => rfl
  | [], _ :: _ => exact absurd h.symm (nonempty hq)
  | _ :: _, [] => exact absurd h (nonempty hp)
  | .field m :: p, .field n :: q =>
    rw [← String.toList_inj, toList_render_field, toList_render_field] at h
    obtain ⟨rfl, hrest⟩ := hp.append_inj hq h
    rw [trail_injective hp.tail hq.tail hrest]
  | .field m :: p, .index j :: q => exact absurd h (differ hp)
  | .index i :: p, .field n :: q => exact absurd h.symm (differ hq)
  | .index i :: p, .index j :: q => exact trail_injective hp hq (congrArg String.toList h)

end ChapterCheck
