/-
# ChapterCheck.Proofs.OneLine -- texts without a line break

A text is `OneLine` if no line break is in it. A compact document is one line whatever it holds
(`Value.oneLine_compact`): strings are escaped, and numbers are written with digits. What the reader
of a document says of a fault is one line, provided that the cause is (`Fault.oneLine_message`).
-/
import ChapterCheck.Json.Printer
import ChapterCheck.Proofs.Encoded
import ChapterCheck.Proofs.Rendering
import ChapterCheck.Text.Raw

namespace ChapterCheck

/-- **`OneLine`** -- a text without a line break. -/
def Text.OneLine (s : String) : Prop :=
  '\n' ∉ s.toList

open Text

instance (s : String) : Decidable (OneLine s) :=
  inferInstanceAs (Decidable ('\n' ∉ s.toList))

namespace Text

@[simp] theorem oneLine_append {s t : String} : OneLine (s ++ t) ↔ OneLine s ∧ OneLine t := by
  simp [OneLine]

theorem oneLine_ofList {cs : List Char} : OneLine (String.ofList cs) ↔ '\n' ∉ cs := by
  rw [OneLine, String.toList_ofList]

theorem oneLine_intercalate {sep : String} (hsep : OneLine sep) :
    ∀ {parts : List String}, (∀ part ∈ parts, OneLine part) → OneLine (sep.intercalate parts)
  | [], _ => by
    rw [String.intercalate_nil]
    decide
  | [part], h => by
    rw [String.intercalate_singleton]
    exact h part List.mem_cons_self
  | part :: next :: rest, h => by
    rw [String.intercalate_cons_cons, oneLine_append, oneLine_append]
    have hrest := oneLine_intercalate hsep fun p hp => h p (List.mem_cons_of_mem part hp)
    exact ⟨⟨h part List.mem_cons_self, hsep⟩, hrest⟩

end Text

/-! ## Names of files -/

theorem Utf8.newline_of_mem_lossyAfter {seen : List Char} {s : List UInt8}
    (h : '\n' ∈ lossyAfter seen s) : '\n' ∈ seen ∨ 10 ∈ s := by
  fun_induction lossyAfter seen s with
  | case1 seen => exact .inl (List.mem_reverse.mp h)
  | case2 seen a r _ _ ih =>
    rcases ih h with h | h
    · exact .inl ((List.mem_cons.mp h).resolve_left (by decide))
    · exact .inr (List.mem_cons_of_mem a ((afterBroken_suffix a r).subset h))
  | case3 seen a r c rest _ hfront ih =>
    have hread := utf8EncodeChar_front hfront
    rcases ih h with h | h
    · rcases List.mem_cons.mp h with rfl | h
      · have hbyte : 10 ∈ String.utf8EncodeChar '\n' := by decide
        exact .inr (hread ▸ List.mem_append_left rest hbyte)
      · exact .inl h
    · exact .inr (hread ▸ List.mem_append_right _ h)

/-- What is shown of a name is one line if there is no byte for a line break in the name. -/
theorem RawText.oneLine_shown {raw : RawText} (h : 10 ∉ raw.bytes) : OneLine raw.shown := by
  rw [shown, oneLine_ofList]
  intro hmem
  rcases Utf8.newline_of_mem_lossyAfter hmem with hseen | hbytes
  · exact List.not_mem_nil hseen
  · exact h hbytes

/-! ## Digits and numbers -/

theorem newline_not_mem_toDigits (n : Nat) : '\n' ∉ Nat.toDigits 10 n := by
  intro h
  have hdigit := Nat.isDigit_of_mem_toDigits (by decide) (by decide) h
  exact absurd hdigit (by decide)

theorem oneLine_repr (n : Nat) : OneLine (Nat.repr n) := by
  rw [OneLine, Nat.toList_repr]
  exact newline_not_mem_toDigits n

namespace Decimal

theorem Digits.newline_not_mem_ofNat (n : Nat) (scale : Int) :
    '\n' ∉ (Digits.ofNat n scale).digits := by
  intro h
  have hreverse := (List.dropWhile_sublist _).subset (List.mem_reverse.mp h)
  exact newline_not_mem_toDigits n (List.mem_reverse.mp hreverse)

/-- The digits of a number are those of a natural number. -/
theorem shortest_cases (x : Float) :
    (shortest x).digits = ['0'] ∨ ∃ n scale, shortest x = Digits.ofNat n scale := by
  rw [shortest]
  dsimp only
  split
  · exact .inl rfl
  · refine .inr ?_
    -- A grid that has a point gives its digits; if none has, the mantissa does.
    rcases hfound : List.findSome? _ _ with _ | digits
    · exact ⟨_, _, rfl⟩
    · obtain ⟨places, -, hplaces⟩ := List.exists_of_findSome?_eq_some hfound
      obtain ⟨n, -, rfl⟩ := Option.map_eq_some_iff.mp hplaces
      exact ⟨n, _, rfl⟩

theorem newline_not_mem_shortest (x : Float) : '\n' ∉ (shortest x).digits := by
  rcases shortest_cases x with h | ⟨n, scale, h⟩
  · rw [h]
    decide
  · rw [h]
    exact Digits.newline_not_mem_ofNat n scale

end Decimal

namespace Json

theorem newline_not_mem_positional {d : Decimal.Digits} (h : '\n' ∉ d.digits) :
    '\n' ∉ positional d := by
  have htake (places : Nat) : '\n' ∉ d.digits.take places := fun hc => h (List.mem_of_mem_take hc)
  have hdrop (places : Nat) : '\n' ∉ d.digits.drop places := fun hc => h (List.mem_of_mem_drop hc)
  rw [positional]
  split
  · simp [h]
  · have hzeros (count : Nat) : '\n' ∉ List.replicate count '0' :=
      fun hc => absurd (List.eq_of_mem_replicate hc) (by decide)
    simp only [List.mem_append, List.mem_cons, not_or]
    refine ⟨⟨htake _, hzeros _⟩, by decide, ?_⟩
    split
    · decide
    · exact hdrop _

theorem newline_not_mem_scientific {d : Decimal.Digits} (h : '\n' ∉ d.digits) :
    '\n' ∉ scientific d := by
  have hexponent := newline_not_mem_toDigits d.exponent.natAbs
  have hsign : '\n' ≠ if d.exponent < 0 then '-' else '+' := by
    split <;> decide
  rw [scientific]
  simp only [List.mem_append, List.mem_cons, not_or]
  refine ⟨?_, by decide, hsign, hexponent⟩
  split
  · simp_all
  · simp_all
  · decide

theorem oneLine_decimalText (x : Float) : OneLine (decimalText x) := by
  have hdigits := Decimal.newline_not_mem_shortest x
  rw [decimalText]
  split
  · have hunsigned : '\n' ∉ if isPositional (Decimal.shortest x).exponent
        then positional (Decimal.shortest x) else scientific (Decimal.shortest x) := by
      split
      · exact newline_not_mem_positional hdigits
      · exact newline_not_mem_scientific hdigits
    rw [oneLine_ofList]
    split
    · rw [List.mem_cons, not_or]
      exact ⟨by decide, hunsigned⟩
    · exact hunsigned
  · decide

theorem Number.oneLine_text (n : Number) : OneLine n.text := by
  cases n with
  | integer n =>
    rw [Number.text, integerText]
    split
    · exact oneLine_append.mpr ⟨by decide, oneLine_repr _⟩
    · exact oneLine_repr _
  | decimal x => exact oneLine_decimalText x

/-! ## Compact documents -/

theorem digitChar_ne_newline : ∀ d < 16, '\n' ≠ Nat.digitChar d := by
  decide

theorem newline_not_mem_escape (c : Char) : '\n' ∉ escape c := by
  unfold escape
  by_cases hc : c = '\n'
  · subst hc
    decide
  · repeat' split
    -- All but the last two are fixed texts.
    · decide
    · decide
    · decide
    · decide
    · decide
    · decide
    · rename_i hlow
      have hhigh := digitChar_ne_newline (c.toNat / 16) (by omega)
      have hrest := digitChar_ne_newline (c.toNat % 16) (by omega)
      simp [hhigh, hrest]
    · rw [List.mem_singleton]
      exact Ne.symm hc

/-- Whatever a text holds, quoted it is one line. -/
theorem oneLine_quote (s : String) : OneLine (quote s) := by
  have hescape : '\n' ∉ s.toList.flatMap escape := by
    rw [List.mem_flatMap]
    rintro ⟨c, -, hc⟩
    exact newline_not_mem_escape c hc
  rw [quote, oneLine_append, oneLine_append]
  exact ⟨⟨by decide, oneLine_ofList.mpr hescape⟩, by decide⟩

mutual

/-- **`oneLine_compact`** -- a document without blanks is one line. -/
theorem Value.oneLine_compact : ∀ v : Value, OneLine v.compact
  | .null => by decide
  | .bool true => by decide
  | .bool false => by decide
  | .number n => n.oneLine_text
  | .string s => oneLine_quote s
  | .array items => by
    rw [Value.compact, oneLine_append, oneLine_append]
    exact ⟨⟨by decide, oneLine_intercalate (by decide) (oneLine_compactItems items)⟩, by decide⟩
  | .object members => by
    rw [Value.compact, oneLine_append, oneLine_append]
    exact ⟨⟨by decide, oneLine_intercalate (by decide) (oneLine_compactMembers members)⟩, by decide⟩

theorem oneLine_compactItems : ∀ items : List Value, ∀ part ∈ compactItems items, OneLine part
  | [] => nofun
  | x :: xs => by
    rw [compactItems]
    exact List.forall_mem_cons.mpr ⟨x.oneLine_compact, oneLine_compactItems xs⟩

theorem oneLine_compactMembers : ∀ members : List (String × Value),
    ∀ part ∈ compactMembers members, OneLine part
  | [] => nofun
  | (k, v) :: rest => by
    rw [compactMembers]
    refine List.forall_mem_cons.mpr ⟨?_, oneLine_compactMembers rest⟩
    rw [oneLine_append, oneLine_append]
    exact ⟨⟨oneLine_quote k, by decide⟩, v.oneLine_compact⟩

end

/-! ## Faults -/

/-- A fault is told in one line if its cause is. -/
theorem Fault.oneLine_message {fault : Fault} (h : OneLine fault.cause.text) (source : Source)
    (input : List UInt8) : OneLine (fault.message source input) := by
  rw [Fault.message]
  simp only [oneLine_append]
  exact ⟨⟨⟨⟨h, by decide⟩, oneLine_repr _⟩, by decide⟩, oneLine_repr _⟩

end Json

/-! ## Paths -/

/-- A path all of whose names are one line. -/
def Path.OneLine (path : Path) : Prop :=
  ∀ name, .field name ∈ path → Text.OneLine name

/-- **`oneLine_render`** -- the written form of such a path is one line. -/
theorem Path.oneLine_render {path : Path} (h : OneLine path) : Text.OneLine path.render :=
  not_mem_render (by decide) (by decide) h

end ChapterCheck
