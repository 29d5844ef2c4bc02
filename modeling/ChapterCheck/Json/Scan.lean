/-
# ChapterCheck.Json.Scan -- reading off the front of a list of bytes

A `Scan` takes something off the front of its input and says what is left. A `Reader` is a scan that
never leaves as much as there was, and it carries the proof: a loop that calls readers ends because
its input gets shorter, with no counter beside it.

Here are the types and the smallest scans: blanks, fixed words, and the marks that separate the
elements of a list and the members of an object.
-/
import ChapterCheck.Json.Fault

namespace ChapterCheck.Json

/-- Something **`Taken`** off the front of an input, and the rest. -/
structure Taken (α : Type) where
  value : α
  rest : List UInt8

/-- The same rest with another value. -/
def Taken.map {α β : Type} (f : α → β) (t : Taken α) : Taken β :=
  ⟨f t.value, t.rest⟩

@[simp] theorem Taken.map_rest {α β : Type} (f : α → β) (t : Taken α) :
    (t.map f).rest = t.rest :=
  rfl

/-- A **`Scan`** takes something off the front of its input, or finds a fault. -/
abbrev Scan (α : Type) := List UInt8 → Except Fault (Taken α)

/-- A **`Reader`** is a scan that takes at least one byte. -/
structure Reader (α : Type) where
  scan : Scan α
  shortens : ∀ {s t}, scan s = .ok t → t.rest.length < s.length

/-- The ASCII character of a byte; bytes from `0x80` on have none that the format knows. -/
def glyph (b : UInt8) : Char :=
  Char.ofNat b.toNat

/-! ## Results in sequence -/

/-- What comes of two steps comes of each of them. -/
theorem bind_eq_ok {ε α β : Type} {x : Except ε α} {f : α → Except ε β} {b : β} :
    x >>= f = .ok b ↔ ∃ a, x = .ok a ∧ f a = .ok b := by
  cases x <;> simp [bind, Except.bind]

theorem map_eq_ok {ε α β : Type} {x : Except ε α} {f : α → β} {b : β} :
    x.map f = .ok b ↔ ∃ a, x = .ok a ∧ f a = b := by
  cases x <;> simp [Except.map]

/-! ## Blanks -/

/-- Space, line feed, carriage return and tab. -/
def isBlank (b : UInt8) : Bool :=
  b == 0x20 || b == 0x0A || b == 0x0D || b == 0x09

/-- **`skipBlanks`** -- the input from its first byte on that is not blank. -/
def skipBlanks (s : List UInt8) : List UInt8 :=
  s.dropWhile isBlank

theorem length_dropWhile_le (p : UInt8 → Bool) (s : List UInt8) :
    (s.dropWhile p).length ≤ s.length :=
  (List.dropWhile_sublist p).length_le

theorem length_skipBlanks_le (s : List UInt8) : (skipBlanks s).length ≤ s.length :=
  length_dropWhile_le isBlank s

/-- What stands behind the first byte that is not dropped is shorter than the input. -/
theorem length_lt_of_dropWhile {p : UInt8 → Bool} {s : List UInt8} {b : UInt8} {r : List UInt8}
    (h : s.dropWhile p = b :: r) : r.length < s.length := by
  have := length_dropWhile_le p s
  rw [h] at this
  exact this

/-- What stands behind the first byte that is not blank is shorter than the input. -/
theorem length_lt_of_skipBlanks {s : List UInt8} {b : UInt8} {r : List UInt8}
    (h : skipBlanks s = b :: r) : r.length < s.length :=
  length_lt_of_dropWhile h

/-! ## Words -/

/-- **`spelled`** -- goes past the bytes of `word`, and refuses the first byte that differs. -/
def spelled : (word : List Char) → List UInt8 → Except Fault (List UInt8)
  | [], s => .ok s
  | _ :: _, [] => .error (.last .endInValue [])
  | c :: word, b :: r => if glyph b = c then spelled word r else .error (.last .expectedWord r)

theorem length_spelled_le : ∀ {word : List Char} {s rest : List UInt8},
    spelled word s = .ok rest → rest.length ≤ s.length
  | [], s, rest, h => by
    cases h
    exact Nat.le_refl _
  | _ :: _, [], rest, h => by cases h
  | c :: word, b :: r, rest, h => by
    unfold spelled at h
    split at h
    · exact Nat.le_succ_of_le (length_spelled_le h)
    · cases h

/-! ## Separators

Both kinds of container go the same way: whether another entry follows is decided before each entry,
and the comma belongs to the entry behind it. -/

/-- What is **`Ahead`** in a container. -/
inductive Ahead where
  /-- The closing bracket; `rest` is behind it. -/
  | closed (rest : List UInt8)
  /-- An entry at the front of `rest`. -/
  | entry (rest : List UInt8)

/-- What is left when it is known what is ahead. -/
def Ahead.rest : Ahead → List UInt8
  | .closed rest => rest
  | .entry rest => rest

/-- **`nextElement`** -- whether another element of a list follows; all but the first need a
comma. -/
def nextElement (first : Bool) (s : List UInt8) : Except Fault Ahead :=
  match skipBlanks s with
  | [] => .error (.next .endInList [])
  | b :: r =>
    if glyph b = ']' then .ok (.closed r)
    else if first then .ok (.entry (b :: r))
    else if glyph b = ',' then
      match skipBlanks r with
      | [] => .error (.next .endInValue [])
      | c :: r' =>
        if glyph c = ']' then .error (.next .trailingComma (c :: r'))
        else .ok (.entry (c :: r'))
    else .error (.next .expectedListEnd (b :: r))

/-- **`nextMember`** -- whether another member of an object follows; its entry begins behind the
quotation mark that opens its key. -/
def nextMember (first : Bool) (s : List UInt8) : Except Fault Ahead :=
  match skipBlanks s with
  | [] => .error (.next .endInObject [])
  | b :: r =>
    if glyph b = '\x7d' then .ok (.closed r)
    else if first then
      if glyph b = '"' then .ok (.entry r) else .error (.next .keyNotString (b :: r))
    else if glyph b = ',' then
      match skipBlanks r with
      | [] => .error (.next .endInValue [])
      | c :: r' =>
        if glyph c = '"' then .ok (.entry r')
        else if glyph c = '\x7d' then .error (.next .trailingComma (c :: r'))
        else .error (.next .keyNotString (c :: r'))
    else .error (.next .expectedObjectEnd (b :: r))

/-- **`colon`** -- goes past the colon between a key and its value. -/
def colon (s : List UInt8) : Except Fault (List UInt8) :=
  match skipBlanks s with
  | [] => .error (.next .endInObject [])
  | b :: r => if glyph b = ':' then .ok r else .error (.next .expectedColon (b :: r))

theorem length_nextElement_le {first : Bool} {s : List UInt8} {a : Ahead}
    (h : nextElement first s = .ok a) : a.rest.length ≤ s.length := by
  unfold nextElement at h
  have hs := length_skipBlanks_le s
  split at h
  · cases h
  · rename_i b r hb
    rw [hb] at hs
    have hr := length_skipBlanks_le r
    split at h
    · cases h
      exact Nat.le_of_lt hs
    · split at h
      · cases h
        exact hs
      · split at h
        · split at h
          · cases h
          · rename_i c r' hc
            rw [hc] at hr
            split at h
            · cases h
            · cases h
              exact Nat.le_trans hr (Nat.le_of_lt hs)
        · cases h

theorem length_nextMember_le {first : Bool} {s : List UInt8} {a : Ahead}
    (h : nextMember first s = .ok a) : a.rest.length ≤ s.length := by
  unfold nextMember at h
  have hs := length_skipBlanks_le s
  split at h
  · cases h
  · rename_i b r hb
    rw [hb] at hs
    have hr := length_skipBlanks_le r
    split at h
    · cases h
      exact Nat.le_of_lt hs
    · split at h
      · split at h
        · cases h
          exact Nat.le_of_lt hs
        · cases h
      · split at h
        · split at h
          · cases h
          · rename_i c r' hc
            rw [hc] at hr
            split at h
            · cases h
              exact Nat.le_trans (Nat.le_of_lt hr) (Nat.le_of_lt hs)
            · split at h <;> cases h
        · cases h

theorem length_colon_le {s rest : List UInt8} (h : colon s = .ok rest) :
    rest.length ≤ s.length := by
  unfold colon at h
  split at h
  · cases h
  · rename_i b r hb
    split at h
    · cases h
      exact Nat.le_of_lt (length_lt_of_skipBlanks hb)
    · cases h

end ChapterCheck.Json
