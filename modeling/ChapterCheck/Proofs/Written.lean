/-
# ChapterCheck.Proofs.Written -- the members of an object as they are written

A document keeps each key once and in order, so it does not tell how its text was written. `Lists`
follows the text instead: one `Member` for each that is written, in the order of the text, each with
the bytes that its value is written with. `Writes` says so of a whole input, and an input is read as
an object just where it does (`Value.ofBytes_eq_ok_object_iff`).

Of the bytes of a value only those of a number matter here: they are the digits of a natural number
just where that number is the value (`Lists.value_iff`).
-/
import ChapterCheck.Proofs.Numerals
import ChapterCheck.Proofs.ReadBack

namespace ChapterCheck.Json

/-! ## Texts of values -/

/-- What was taken off the front of an input, from what is left. -/
def front (s rest : List UInt8) : List UInt8 :=
  s.take (s.length - rest.length)

@[simp] theorem front_append (text rest : List UInt8) : front (text ++ rest) rest = text := by
  rw [front, List.length_append, Nat.add_sub_cancel, List.take_left]

theorem lead?_of_isDigit {b : UInt8} (h : isDigit b = true) : lead? b = some .number := by
  have hne {c : Char} (hc : c.toNat < 0x30 ∨ 0x39 < c.toNat) : glyph b ≠ c := fun heq =>
    Bool.eq_false_iff.mp (isDigit_eq_false_of_glyph heq hc) h
  unfold lead?
  split
  · exact absurd ‹_› (hne (by decide))
  · exact absurd ‹_› (hne (by decide))
  · exact absurd ‹_› (hne (by decide))
  · exact absurd ‹_› (hne (by decide))
  · exact absurd ‹_› (hne (by decide))
  · exact absurd ‹_› (hne (by decide))
  · rfl
  · exact if_pos h

/-- A value that is a word. -/
def Value.isWord : Value → Prop
  | .null | .bool _ => True
  | _ => False

theorem isWord_of_lead {b : UInt8} {letters : List Char} {value : Value}
    (h : lead? b = some (.word letters value)) : value.isWord := by
  unfold lead? at h
  split at h <;> try cases h
  · trivial
  · trivial
  · trivial
  · split at h <;> cases h

theorem opens_repr (n : Nat) : Opens (Nat.repr n) := by
  obtain ⟨b, r, hbytes, hb⟩ := exists_bytes_repr_eq_cons n
  obtain ⟨d, hd, rfl⟩ := exists_digitByte hb
  have hfront : ∀ d < 10, isBlank (digitByte d) = false ∧ glyph (digitByte d) ≠ ']' := by decide
  exact ⟨digitByte d, r, hbytes, hfront d hd⟩

section Values

variable {part : Option (Reader Value)} {s : List UInt8} {t : Taken Value}

/-- What is read as a value is **`Led`** by its first byte -- numbers, texts and objects are read by
the readers for these, and anything else is none of them. -/
inductive Led (part : Option (Reader Value)) (s : List UInt8) (t : Taken Value) : Prop
  | number {b : UInt8} {r : List UInt8} {n : Number} : skipBlanks s = b :: r →
      lead? b = some .number → Number.read.scan (b :: r) = .ok ⟨n, t.rest⟩ →
      t.value = .number n → Led part s t
  | text {b : UInt8} {r : List UInt8} {x : String} : skipBlanks s = b :: r →
      lead? b = some .text → readQuoted.scan r = .ok ⟨x, t.rest⟩ → t.value = .string x →
      Led part s t
  | object {b : UInt8} {r : List UInt8} {inner : Reader Value} {written : List (String × Value)} :
      skipBlanks s = b :: r → lead? b = some .object → part = some inner →
      readMembers .stream (fun _ _ => afterColon inner) true [] r = .ok ⟨written, t.rest⟩ →
      t.value = .object (Members.ofList written) → Led part s t
  | other {b : UInt8} {r : List UInt8} {lead : Lead} : skipBlanks s = b :: r →
      lead? b = some lead → lead ∉ [.number, .text, .object] → (∀ n, t.value ≠ .number n) →
      (∀ x, t.value ≠ .string x) → (∀ members, t.value ≠ .object members) → Led part s t

theorem readWith_led (h : (readWith .stream part).scan s = .ok t) : Led part s t := by
  simp only [readWith] at h
  split at h
  · cases h
  · rename_i b r hb
    split at h
    · cases h
    · rename_i hlead
      obtain ⟨rest, -, rfl⟩ := map_eq_ok.mp h
      have hword := isWord_of_lead hlead
      apply Led.other hb hlead (by simp) <;> rintro x rfl <;> exact hword
    · rename_i hlead
      obtain ⟨n, hn, rfl⟩ := map_eq_ok.mp h
      exact .number hb hlead hn rfl
    · rename_i hlead
      obtain ⟨x, hx, rfl⟩ := map_eq_ok.mp h
      exact .text hb hlead hx rfl
    · cases h
    · cases h
    · rename_i hlead
      obtain ⟨items, -, rfl⟩ := map_eq_ok.mp h
      exact .other hb hlead (by simp) nofun nofun nofun
    · rename_i hlead
      obtain ⟨written, hwritten, rfl⟩ := map_eq_ok.mp h
      exact .object hb hlead rfl hwritten rfl

/-- A number is read as one, or there is none. -/
theorem Led.number_or (h : Led part s t) :
    (∃ b r n, skipBlanks s = b :: r ∧ lead? b = some .number
      ∧ Number.read.scan (b :: r) = .ok ⟨n, t.rest⟩ ∧ t.value = .number n)
    ∨ ∃ b r lead, skipBlanks s = b :: r ∧ lead? b = some lead ∧ lead ≠ .number
      ∧ ∀ n, t.value ≠ .number n := by
  cases h with
  | number hs hlead hread hvalue => exact .inl ⟨_, _, _, hs, hlead, hread, hvalue⟩
  | text hs hlead _ hvalue => exact .inr ⟨_, _, _, hs, hlead, nofun, by rw [hvalue]; nofun⟩
  | object hs hlead _ _ hvalue => exact .inr ⟨_, _, _, hs, hlead, nofun, by rw [hvalue]; nofun⟩
  | other hs hlead hne hnumber =>
    exact .inr ⟨_, _, _, hs, hlead, fun heq => hne (by simp [heq]), hnumber⟩

/-- A text is read as one, or there is none. -/
theorem Led.text_or (h : Led part s t) :
    (∃ b r x, skipBlanks s = b :: r ∧ lead? b = some .text
      ∧ readQuoted.scan r = .ok ⟨x, t.rest⟩ ∧ t.value = .string x)
    ∨ ∃ b r lead, skipBlanks s = b :: r ∧ lead? b = some lead ∧ lead ≠ .text
      ∧ ∀ x, t.value ≠ .string x := by
  cases h with
  | number hs hlead _ hvalue => exact .inr ⟨_, _, _, hs, hlead, nofun, by rw [hvalue]; nofun⟩
  | text hs hlead hread hvalue => exact .inl ⟨_, _, _, hs, hlead, hread, hvalue⟩
  | object hs hlead _ _ hvalue => exact .inr ⟨_, _, _, hs, hlead, nofun, by rw [hvalue]; nofun⟩
  | other hs hlead hne _ htext =>
    exact .inr ⟨_, _, _, hs, hlead, fun heq => hne (by simp [heq]), htext⟩

/-- The text of a value is the one of a natural number just where the value is that number. -/
theorem readWith_value_iff (h : (readWith .stream part).scan s = .ok t) (n : Nat) :
    t.value = .number (.integer n)
      ↔ front (skipBlanks s) t.rest = Utf8.bytes (Nat.repr n) ∧ n < UInt64.size := by
  rcases (readWith_led h).number_or with
    ⟨b, r, m, hs, -, hread, hvalue⟩ | ⟨b, r, lead, hs, hlead, hne, hvalue⟩
  · obtain ⟨text, htext, hmeans⟩ := Number.read_text hread
    rw [hs, htext, front_append, ← hmeans, hvalue]
    exact ⟨fun heq => by cases heq; rfl, fun heq => by rw [← heq]⟩
  · -- The text of a natural number begins with a digit, and that leads to a number.
    refine iff_of_false (hvalue _) ?_
    rintro ⟨htext, -⟩
    obtain ⟨c, r', hbytes, hc⟩ := exists_bytes_repr_eq_cons n
    have hprefix := List.take_prefix ((skipBlanks s).length - t.rest.length) (skipBlanks s)
    rw [← front, htext, hbytes, hs] at hprefix
    obtain ⟨rfl, -⟩ := List.cons_prefix_cons.mp hprefix
    rw [lead?_of_isDigit hc] at hlead
    exact hne (Option.some.inj hlead).symm

/-- A natural number is read where its text stands, if it ends there. -/
theorem readWith_repr {n : Nat} (hn : n < UInt64.size) {rest : List UInt8} (hends : Ends rest)
    (hs : skipBlanks s = Utf8.bytes (Nat.repr n) ++ rest) :
    (readWith .stream part).scan s = .ok ⟨.number (.integer n), rest⟩ := by
  obtain ⟨b, r, hbytes, hb⟩ := exists_bytes_repr_eq_cons n
  have hlead := lead?_of_isDigit hb
  have hread := Number.read_repr hn hends
  rw [hbytes, List.cons_append] at hs hread
  simp only [readWith, hs, hlead, hread]
  rfl

end Values

/-! ## Members in the order of the text -/

/-- A **`Member`** as it is written -- its key, what it holds, and the bytes that say so. -/
structure Member where
  key : String
  value : Value
  text : List UInt8

/-- What is kept of a member. -/
def Member.pair (m : Member) : String × Value :=
  (m.key, m.value)

/-- **`Lists`** -- the members that are written up to the closing bracket of an object; their values
are read by `inner`, and `rest` is left. -/
inductive Lists (inner : Reader Value) :
    (first : Bool) → (s : List UInt8) → (written : List Member) → (rest : List UInt8) → Prop
  | closed {first : Bool} {s rest : List UInt8} : nextMember first s = .ok (.closed rest) →
      Lists inner first s [] rest
  | entry {first : Bool} {s behindMark behindColon rest : List UInt8} {key : Taken String}
      {t : Taken Value} {written : List Member} :
      nextMember first s = .ok (.entry behindMark) → readQuoted.scan behindMark = .ok key →
      colon key.rest = .ok behindColon → inner.scan behindColon = .ok t →
      Lists inner false t.rest written rest →
      Lists inner first s (⟨key.value, t.value, front (skipBlanks behindColon) t.rest⟩ :: written)
        rest

section Listing

variable {inner : Reader Value} {part : Option (Reader Value)} {first : Bool}
  {s rest : List UInt8} {written : List Member}

/-- Where a member is read, the loop goes on behind it, and nowhere else. -/
theorem readMembers_entry_eq_ok_iff {α : Type}
    {member : List (String × α) → String → Reader α} {seen : List (String × α)}
    {u : Taken (List (String × α))} {key : Taken String}
    (hnext : nextMember first s = .ok (.entry rest)) (hkey : readQuoted.scan rest = .ok key) :
    readMembers .stream member first seen s = .ok u ↔
      ∃ t, (member seen key.value).scan key.rest = .ok t
        ∧ readMembers .stream member false ((key.value, t.value) :: seen) t.rest = .ok u := by
  rw [readMembers_eq, hnext]
  show readQuoted.scan rest >>= _ = _ ↔ _
  rw [hkey]
  show (member seen key.value).scan key.rest >>= _ = _ ↔ _
  exact bind_eq_ok

theorem Lists.readMembers_eq (h : Lists inner first s written rest) (seen : List (String × Value)) :
    readMembers .stream (fun _ _ => afterColon inner) first seen s
      = .ok ⟨seen.reverse ++ written.map Member.pair, rest⟩ := by
  induction h generalizing seen with
  | closed hclosed => rw [readMembers_closed hclosed, List.map_nil, List.append_nil]
  | entry hnext hkey hcolon hvalue _ ih =>
    have hmember := bind_eq_ok.mpr ⟨_, hcolon, hvalue⟩
    rw [readMembers_entry hnext hkey hmember, ih, List.reverse_cons, List.append_assoc,
      List.singleton_append, List.map_cons]
    rfl

theorem exists_lists {seen : List (String × Value)} {t : Taken (List (String × Value))}
    (h : readMembers .stream (fun _ _ => afterColon inner) first seen s = .ok t) :
    ∃ written, Lists inner first s written t.rest := by
  fun_induction readMembers .stream (fun _ _ => afterColon inner) first seen s with
  | case1 => cases h
  | case2 _ _ _ _ hclosed =>
    cases h
    exact ⟨[], .closed hclosed⟩
  | case3 => cases h
  | case4 => cases h
  | case5 _ _ _ _ hnext _ hkey _ hmember _ _ _ ih =>
    obtain ⟨written, hwritten⟩ := ih h
    obtain ⟨behindColon, hcolon, hvalue⟩ := bind_eq_ok.mp hmember
    exact ⟨_, .entry hnext hkey hcolon hvalue hwritten⟩

/-- The text of a member is the one of a natural number just where it holds that number. -/
theorem Lists.value_iff (h : Lists (readWith .stream part) first s written rest) (n : Nat) :
    ∀ m ∈ written, m.value = .number (.integer n)
      ↔ m.text = Utf8.bytes (Nat.repr n) ∧ n < UInt64.size := by
  induction h with
  | closed => nofun
  | entry _ _ _ hvalue _ ih =>
    exact List.forall_mem_cons.mpr ⟨readWith_value_iff hvalue n, ih⟩

/-- The mark that opens a key is the first byte behind blanks. -/
theorem skipBlanks_key {gap : List UInt8} (hgap : Blanks gap) (key : String) (rest : List UInt8) :
    skipBlanks (gap ++ (Utf8.bytes (quote key) ++ rest))
      = 0x22 :: (Utf8.encode (key.toList.flatMap escape) ++ 0x22 :: rest) := by
  rw [skipBlanks_append hgap, (opens_quote key).skipBlanks, bytes_quote, List.cons_append,
    List.append_assoc, List.singleton_append]

/-- A member is listed where it is written: its key, a colon, and its value behind blanks. -/
theorem Lists.member {gap behind : List UInt8} {key text : String} {value : Value}
    (hnext : nextMember first s = .ok (.entry (Utf8.encode (key.toList.flatMap escape)
      ++ 0x22 :: 0x3A :: (gap ++ (Utf8.bytes text ++ behind)))))
    (hgap : Blanks gap) (hopens : Opens text)
    (hvalue : ∀ s, skipBlanks s = Utf8.bytes text ++ behind → inner.scan s = .ok ⟨value, behind⟩)
    (hmore : Lists inner false behind written rest) :
    Lists inner first s (⟨key, value, Utf8.bytes text⟩ :: written) rest := by
  have hskip : skipBlanks (gap ++ (Utf8.bytes text ++ behind)) = Utf8.bytes text ++ behind := by
    rw [skipBlanks_append hgap, hopens.skipBlanks]
  have hcolon : colon (0x3A :: (gap ++ (Utf8.bytes text ++ behind)))
      = .ok (gap ++ (Utf8.bytes text ++ behind)) := rfl
  have hentry := Lists.entry hnext (readQuoted_escape key _) hcolon (hvalue _ hskip) hmore
  rwa [hskip, front_append] at hentry

end Listing

/-! ## Objects -/

/-- **`Writes`** -- the members that an input writes as the one object in it. Its parts have one
room less than the object. -/
def Writes (input : List UInt8) (written : List Member) : Prop :=
  ∃ s rest, skipBlanks input = 0x7B :: s
    ∧ Lists (readValue .stream (maxNesting - 1)) true s written rest ∧ skipBlanks rest = []

/-- What is read to the end of an input has only blanks behind it. -/
theorem toEnd_eq_ok_iff {α : Type} {read : Reader α} {input : List UInt8} {a : α} :
    toEnd read input = .ok a ↔ ∃ rest, read.scan input = .ok ⟨a, rest⟩ ∧ skipBlanks rest = [] := by
  rw [toEnd, bind_eq_ok]
  constructor
  · rintro ⟨t, ht, h⟩
    split at h
    · rename_i hrest
      cases h
      exact ⟨t.rest, ht, hrest⟩
    · cases h
  · rintro ⟨rest, hread, hrest⟩
    refine ⟨_, hread, ?_⟩
    simp only [hrest]
    rfl

theorem eq_bracket_of_lead {b : UInt8} (h : lead? b = some .object) : b = 0x7B := by
  unfold lead? at h
  split at h <;> try cases h
  · exact UInt8.toNat_inj.mp (glyph_eq_iff.mp ‹_›)
  · split at h <;> cases h

/-- **`Value.ofBytes_eq_ok_object_iff`** -- an input is read as an object just where it writes
members, and these are what the object holds. -/
theorem Value.ofBytes_eq_ok_object_iff {input : List UInt8} {members : Members} :
    Value.ofBytes input = .ok (.object members) ↔
      ∃ written, Writes input written ∧ members = Members.ofList (written.map Member.pair) := by
  have hbracket : lead? 0x7B = some .object := rfl
  have hroom : readValue .stream maxNesting
      = readWith .stream (some (readValue .stream (maxNesting - 1))) := rfl
  rw [Value.ofBytes, toEnd_eq_ok_iff, hroom]
  constructor
  · rintro ⟨rest, h, hrest⟩
    cases readWith_led h with
    | number _ _ _ hvalue => cases hvalue
    | text _ _ _ hvalue => cases hvalue
    | object hs hlead hpart hread hvalue =>
      -- What the loop has kept and what is listed come from the same reading.
      cases hpart
      cases hvalue
      obtain ⟨written, hwritten⟩ := exists_lists hread
      have hpairs := hwritten.readMembers_eq []
      rw [hread] at hpairs
      cases hpairs
      rw [eq_bracket_of_lead hlead] at hs
      exact ⟨written, ⟨_, rest, hs, hwritten, hrest⟩, rfl⟩
    | other _ _ _ _ _ hobject => exact absurd rfl (hobject members)
  · rintro ⟨written, ⟨s, rest, hs, hlists, hrest⟩, rfl⟩
    refine ⟨rest, ?_, hrest⟩
    simp only [readWith, hs, hbracket, hlists.readMembers_eq]
    rfl

end ChapterCheck.Json
