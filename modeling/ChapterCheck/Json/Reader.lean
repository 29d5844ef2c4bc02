/-
# ChapterCheck.Json.Reader -- documents from texts and from bytes

`Value.ofText` and `Value.ofBytes` read one document and nothing but blanks around it, the one off a
text that is at hand, the other off a stream. The grammar is the same for both; how the texts in a
document are read is left to the source.

Lists and objects may be nested `maxNesting` deep: `readValue source room` may open `room` more of
them inside one another, and recursion is on `room` alone. The loops over the entries of a container
end because the input gets shorter. `readElements` and `readMembers` take the reader of an entry as
an argument. A document reads every entry as a value; a record with known fields reads its entries
in a way of its own through the same two loops, so both go through the commas, colons and brackets
alike.
-/
import ChapterCheck.Json.Numeral
import ChapterCheck.Json.Quoted

namespace ChapterCheck.Json

/-- How many lists and objects may stand inside one another. -/
def maxNesting : Nat := 127

/-! ## What a value begins with -/

/-- The kinds of values as their first byte tells them. -/
inductive Lead where
  /-- One of the three words; the letters that have to follow, and the value. -/
  | word (letters : List Char) (value : Value)
  | number
  | text
  | list
  | object

/-- **`lead?`** -- the kind of value that begins with a byte, if any does. -/
def lead? (b : UInt8) : Option Lead :=
  match glyph b with
  | 'n' => some (.word ['u', 'l', 'l'] .null)
  | 't' => some (.word ['r', 'u', 'e'] (.bool true))
  | 'f' => some (.word ['a', 'l', 's', 'e'] (.bool false))
  | '"' => some .text
  | '[' => some .list
  | '\x7b' => some .object
  | '-' => some .number
  | _ => if isDigit b then some .number else none

/-! ## Entries of containers -/

/-- **`readElements`** -- the elements of a list up to its closing bracket. Those before the input
are read and stand in `seen`, the last one first. -/
def readElements {α : Type} (element : Reader α) (first : Bool) (seen : List α)
    (s : List UInt8) : Except Fault (Taken (List α)) :=
  match hn : nextElement first s with
  | .error fault => .error fault
  | .ok (.closed rest) => .ok ⟨seen.reverse, rest⟩
  | .ok (.entry rest) =>
    match he : element.scan rest with
    | .error fault => .error fault
    | .ok t =>
      have : rest.length ≤ s.length := length_nextElement_le hn
      have := element.shortens he
      readElements element false (t.value :: seen) t.rest
termination_by s.length
decreasing_by omega

/-- **`readMembers`** -- the members of an object up to its closing bracket, as they are written.
The reader of a member is told the members that are read already, last one first, and the key, and
begins right behind the key. -/
def readMembers {α : Type} (source : Source) (member : List (String × α) → String → Reader α)
    (first : Bool) (seen : List (String × α)) (s : List UInt8) :
    Except Fault (Taken (List (String × α))) :=
  match hn : nextMember first s with
  | .error fault => .error fault
  | .ok (.closed rest) => .ok ⟨seen.reverse, rest⟩
  | .ok (.entry rest) =>
    match hq : source.quoted.scan rest with
    | .error fault => .error fault
    | .ok key =>
      match hm : (member seen key.value).scan key.rest with
      | .error fault => .error fault
      | .ok t =>
        have : rest.length ≤ s.length := length_nextMember_le hn
        have := source.quoted.shortens hq
        have := (member seen key.value).shortens hm
        readMembers source member false ((key.value, t.value) :: seen) t.rest
termination_by s.length
decreasing_by omega

/-- One step of the loop over the elements of a list. -/
theorem readElements_eq {α : Type} (element : Reader α) (first : Bool) (seen : List α)
    (s : List UInt8) :
    readElements element first seen s = nextElement first s >>= fun ahead =>
      match ahead with
      | .closed rest => .ok ⟨seen.reverse, rest⟩
      | .entry rest => element.scan rest >>= fun t =>
        readElements element false (t.value :: seen) t.rest := by
  rw [readElements]
  split
  · simp only [*]
    rfl
  · simp only [*]
    rfl
  · simp only [*]
    show _ = element.scan _ >>= _
    split <;> simp only [*] <;> rfl

/-- One step of the loop over the members of an object. -/
theorem readMembers_eq {α : Type} (source : Source)
    (member : List (String × α) → String → Reader α) (first : Bool) (seen : List (String × α))
    (s : List UInt8) :
    readMembers source member first seen s = nextMember first s >>= fun ahead =>
      match ahead with
      | .closed rest => .ok ⟨seen.reverse, rest⟩
      | .entry rest => source.quoted.scan rest >>= fun key =>
        (member seen key.value).scan key.rest >>= fun t =>
          readMembers source member false ((key.value, t.value) :: seen) t.rest := by
  rw [readMembers]
  split
  · simp only [*]
    rfl
  · simp only [*]
    rfl
  · simp only [*]
    show _ = source.quoted.scan _ >>= _
    split
    · simp only [*]
      rfl
    · simp only [*]
      show _ = (member seen _).scan _ >>= _
      split <;> simp only [*] <;> rfl

theorem length_readElements_le {α : Type} {element : Reader α} {first : Bool} {seen : List α}
    {s : List UInt8} {t : Taken (List α)} (h : readElements element first seen s = .ok t) :
    t.rest.length ≤ s.length := by
  fun_induction readElements element first seen s with
  | case1 => cases h
  | case2 _ _ _ _ hn =>
    cases h
    exact length_nextElement_le hn
  | case3 => cases h
  | case4 _ _ _ _ _ _ _ hs hr ih => exact Nat.le_trans (ih h) (Nat.le_trans (Nat.le_of_lt hr) hs)

theorem length_readMembers_le {α : Type} {source : Source}
    {member : List (String × α) → String → Reader α} {first : Bool} {seen : List (String × α)}
    {s : List UInt8} {t : Taken (List (String × α))}
    (h : readMembers source member first seen s = .ok t) : t.rest.length ≤ s.length := by
  fun_induction readMembers source member first seen s with
  | case1 => cases h
  | case2 _ _ _ _ hn =>
    cases h
    exact length_nextMember_le hn
  | case3 => cases h
  | case4 => cases h
  | case5 _ _ _ _ _ _ _ _ _ hs hq hm ih =>
    have := ih h
    omega

/-- A colon, and what is read behind it. -/
def afterColon {α : Type} (value : Reader α) : Reader α where
  scan s := do value.scan (← colon s)
  shortens := by
    intro s t h
    obtain ⟨rest, hc, h⟩ := bind_eq_ok.mp h
    exact Nat.lt_of_lt_of_le (value.shortens h) (length_colon_le hc)

/-! ## Values -/

/-- **`readWith source inner`** -- a value whose parts are read by `inner`; without `inner` it
cannot have parts. -/
def readWith (source : Source) (inner : Option (Reader Value)) : Reader Value where
  scan s :=
    match skipBlanks s with
    | [] => .error (.next .endInValue [])
    | b :: r =>
      match lead? b, inner with
      | none, _ => .error (.next .expectedValue (b :: r))
      | some (.word letters value), _ => (spelled letters r).map (Taken.mk value)
      | some .number, _ => (Number.read.scan (b :: r)).map (Taken.map .number)
      | some .text, _ => (source.quoted.scan r).map (Taken.map .string)
      | some .list, none | some .object, none => .error (.next .nestedTooDeep (b :: r))
      | some .list, some part => (readElements part true [] r).map (Taken.map .array)
      | some .object, some part =>
        (readMembers source (fun _ _ => afterColon part) true [] r).map
          (Taken.map fun written => .object (Members.ofList written))
  shortens := by
    intro s t h
    have hs := length_skipBlanks_le s
    split at h
    · cases h
    · rename_i b r hb
      rw [hb] at hs
      split at h
      · cases h
      · obtain ⟨rest, hr, rfl⟩ := map_eq_ok.mp h
        exact Nat.lt_of_le_of_lt (length_spelled_le hr) hs
      · obtain ⟨n, hn, rfl⟩ := map_eq_ok.mp h
        exact Nat.lt_of_lt_of_le (Number.read.shortens hn) hs
      · obtain ⟨q, hq, rfl⟩ := map_eq_ok.mp h
        exact Nat.lt_trans (source.quoted.shortens hq) hs
      · cases h
      · cases h
      · obtain ⟨l, hl, rfl⟩ := map_eq_ok.mp h
        exact Nat.lt_of_le_of_lt (length_readElements_le hl) hs
      · obtain ⟨o, ho, rfl⟩ := map_eq_ok.mp h
        exact Nat.lt_of_le_of_lt (length_readMembers_le ho) hs

/-- **`readValue source room`** -- a value in which at most `room` lists and objects are nested. -/
def readValue (source : Source) : (room : Nat) → Reader Value
  | 0 => readWith source none
  | room + 1 => readWith source (some (readValue source room))

/-! ## Documents -/

/-- What a reader takes, if only blanks follow. -/
def toEnd {α : Type} (read : Reader α) (input : List UInt8) : Except Fault α := do
  let taken ← read.scan input
  match skipBlanks taken.rest with
  | [] => return taken.value
  | b :: r => throw (.next .trailingCharacters (b :: r))

/-- **`Value.ofBytes`** -- the document that the bytes of a stream hold. -/
def Value.ofBytes (input : List UInt8) : Except Fault Value :=
  toEnd (readValue .stream maxNesting) input

/-- **`Value.ofText`** -- the document that a text holds. -/
def Value.ofText (s : String) : Except Fault Value :=
  toEnd (readValue .text maxNesting) (Utf8.bytes s)

end ChapterCheck.Json
