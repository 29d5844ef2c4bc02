/-
# ChapterCheck.Proofs.Put -- a document with another node at a place

`Value.put` is the document in which another node stands where a path leads. What was put is found
there (`resolve?_put`), whatever stands apart from the path is what it was
(`resolve?_put_of_apart`), and a long path may be followed in two stages (`put_append`).

A step that leads nowhere changes nothing, so no key and no element is ever added.
-/
import ChapterCheck.Proofs.Apart

namespace ChapterCheck.Json

/-! ## One member -/

/-- **`Members.modify`** -- the members with `f` applied to what stands under a key. -/
def Members.modify (key : String) (f : Value → Value) : Members → Members
  | [] => []
  | (k, w) :: rest => if k = key then (k, f w) :: rest else (k, w) :: modify key f rest

theorem Members.get?_modify (key : String) (f : Value → Value) (other : String) :
    ∀ members : Members, get? (modify key f members) other
      = if other = key then (get? members key).map f else get? members other
  | [] => by simp [modify]
  | (k, w) :: rest => by
    have ih := get?_modify key f other rest
    unfold modify
    split
    · rename_i heq
      subst heq
      by_cases h : other = k <;> simp [get?_cons, h]
    · rename_i hne
      by_cases hk : other = k
      · subst hk
        simp [get?_cons, hne]
      · by_cases hkey : other = key
        · subst hkey
          simp [get?_cons, hk, ih]
        · simp [get?_cons, hk, hkey, ih]

/-- Only what stands under the key matters. -/
theorem Members.modify_congr {key : String} {f g : Value → Value} {w : Value} :
    ∀ {members : Members}, get? members key = some w → f w = g w →
      modify key f members = modify key g members
  | [], h, _ => by cases h
  | (k, u) :: rest, h, heq => by
    rw [get?_cons] at h
    unfold modify
    by_cases hk : key = k
    · rw [if_pos hk, Option.some.injEq] at h
      rw [if_pos hk.symm, if_pos hk.symm, h, heq]
    · rw [if_neg hk] at h
      rw [if_neg (Ne.symm hk), if_neg (Ne.symm hk), modify_congr h heq]

/-! ## Any node -/

namespace Value

/-- **`put`** -- the document in which `new` stands where a path leads. -/
def put : Value → Path → Value → Value
  | _, [], new => new
  | .object members, .field name :: rest, new =>
    .object (Members.modify name (fun w => w.put rest new) members)
  | .array items, .index place :: rest, new =>
    .array (items.modify place fun w => w.put rest new)
  | v, _ :: _, _ => v

@[simp] theorem put_nil (v new : Value) : v.put [] new = new := by
  cases v <;> rfl

/-- A step of the path leads to the node in which the rest of the path is followed. -/
theorem step?_put_self (v new : Value) (step : Step) (rest : Path) :
    (v.put (step :: rest) new).step? step = (v.step? step).map fun w => w.put rest new := by
  cases step with
  | field name =>
    cases v with
    | object members =>
      show Members.get? (Members.modify name _ members) name = (Members.get? members name).map _
      rw [Members.get?_modify, if_pos rfl]
    | _ => rfl
  | index place =>
    cases v with
    | array items =>
      show (items.modify place _)[place]? = items[place]?.map _
      rw [List.getElem?_modify_eq]
      rfl
    | _ => rfl

/-- A step to elsewhere leads where it led. -/
theorem step?_put_of_ne {v new : Value} {step other : Step} {rest : Path} (h : other ≠ step) :
    (v.put (step :: rest) new).step? other = v.step? other := by
  cases step with
  | field name =>
    cases v with
    | object members =>
      cases other with
      | field key =>
        have hkey : key ≠ name := fun heq => h (congrArg Step.field heq)
        show Members.get? (Members.modify name _ members) key = Members.get? members key
        rw [Members.get?_modify, if_neg hkey]
      | index _ => rfl
    | _ => rfl
  | index place =>
    cases v with
    | array items =>
      cases other with
      | field _ => rfl
      | index i =>
        have hi : place ≠ i := fun heq => h (congrArg Step.index heq.symm)
        show (items.modify place _)[i]? = items[i]?
        exact List.getElem?_modify_ne _ items hi
    | _ => rfl

/-- **`resolve?_put`** -- what was put is found. -/
theorem resolve?_put {v u new : Value} {place : Path} (h : v.resolve? place = some u) :
    (v.put place new).resolve? place = some new := by
  induction place generalizing v with
  | nil => rw [put_nil, resolve?_nil]
  | cons step rest ih =>
    obtain ⟨w, hw, hu⟩ := Option.bind_eq_some_iff.mp h
    show ((v.put (step :: rest) new).step? step).bind _ = some new
    rw [step?_put_self, hw, Option.map_some, Option.bind_some]
    exact ih hu

/-- **`resolve?_put_of_apart`** -- nothing else has changed. -/
theorem resolve?_put_of_apart {v new : Value} {place other : Path} (h : Path.Apart place other) :
    (v.put place new).resolve? other = v.resolve? other := by
  induction place generalizing v other with
  | nil => exact absurd List.nil_prefix h.1
  | cons step rest ih =>
    cases other with
    | nil => exact absurd List.nil_prefix h.2
    | cons next onward =>
      show ((v.put (step :: rest) new).step? next).bind _ = (v.step? next).bind _
      by_cases hne : next = step
      · subst hne
        have hrest : Path.Apart rest onward := by
          simpa [Path.Apart, List.cons_prefix_cons] using h
        rw [step?_put_self]
        cases v.step? next with
        | none => rfl
        | some w => exact ih hrest
      · rw [step?_put_of_ne hne]

/-- **`put_append`** -- a path may be followed in two stages. -/
theorem put_append {v u : Value} {p : Path} (h : v.resolve? p = some u) (q : Path) (new : Value) :
    v.put (p ++ q) new = v.put p (u.put q new) := by
  induction p generalizing v with
  | nil =>
    obtain rfl := Option.some.inj h
    rw [List.nil_append, put_nil]
  | cons step rest ih =>
    obtain ⟨w, hw, hu⟩ := Option.bind_eq_some_iff.mp h
    cases step with
    | field name =>
      cases v with
      | object members =>
        have hmembers : Members.modify name (fun w => w.put (rest ++ q) new) members
            = Members.modify name (fun w => w.put rest (u.put q new)) members :=
          Members.modify_congr hw (ih hu)
        exact congrArg Value.object hmembers
      | _ => rfl
    | index place =>
      cases v with
      | array items =>
        obtain ⟨hlt, hw⟩ := List.getElem?_eq_some_iff.mp hw
        have hitems : items.modify place (fun w => w.put (rest ++ q) new)
            = items.modify place (fun w => w.put rest (u.put q new)) := by
          rw [List.modify_eq_take_cons_drop hlt, List.modify_eq_take_cons_drop hlt, hw, ih hu]
        exact congrArg Value.array hitems
      | _ => rfl

end Value

end ChapterCheck.Json
