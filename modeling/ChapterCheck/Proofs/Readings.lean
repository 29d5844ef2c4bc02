/-
# ChapterCheck.Proofs.Readings -- a chapter read as a text and read from bytes

A text is at hand as characters, a stream as bytes that need not be the bytes of any text. The main
statement is `Chapter.decoded_alike`: as a chapter the two are read alike. What is read from bytes
are the bytes of a text; a text is read as its bytes are, or refused for the same cause.

That the readers agree is `Value.ofText_eq_ofBytes`. What is left are the places of faults, which
are worked out in two ways: in a text backwards from the byte in question, in a stream by counting
along with the bytes that were taken. Both come to the same (`Position.behind_take`), but where a
byte was taken only to be looked at. Of a text that is told for one cause alone, a number out of
range.
-/
import ChapterCheck.Files
import ChapterCheck.Proofs.Sources
import ChapterCheck.Validator

namespace ChapterCheck.Json

/-! ## Places -/

namespace Position

/-- Counting along comes to the number of breaks, and to the length of what is behind the last one.
-/
theorem behind_eq (taken : List UInt8) :
    behind taken = ⟨1 + taken.count 10, (taken.reverse.takeWhile (· != 10)).length⟩ := by
  have hcount : ∀ bytes : List UInt8, bytes.foldr (fun b p => after p b) start
      = ⟨1 + bytes.count 10, (bytes.takeWhile (· != 10)).length⟩ := by
    intro bytes
    induction bytes with
    | nil => rfl
    | cons b bytes ih =>
      rw [List.foldr_cons, ih, after, List.count_cons, List.takeWhile_cons]
      by_cases hb : b = 10
      · simp [hb, Nat.add_assoc]
      · simp [hb]
  rw [behind, List.foldl_eq_foldr_reverse, hcount, List.count_reverse]

/-- Both ways come to the same place: no break is among the bytes of the last line, so all of them
are in front of it. -/
theorem behind_take {input : List UInt8} {count : Nat} (h : count ≤ input.length) :
    behind (input.take count) = within input count := by
  rw [behind_eq, within]
  generalize hused : input.take count = used
  generalize hline : used.reverse.takeWhile (· != 10) = line
  generalize hfront : (used.reverse.dropWhile (· != 10)).reverse = front
  have hsplit : front ++ line.reverse = used := by
    rw [← hfront, ← List.reverse_append, ← hline, List.takeWhile_append_dropWhile,
      List.reverse_reverse]
  have hnone : line.reverse.count 10 = 0 := by
    rw [List.count_reverse, List.count_eq_zero, ← hline]
    intro hmem
    have hall := List.all_eq_true.mp (List.all_takeWhile (p := (· != 10)) (l := used.reverse)) 10
    simpa using hall hmem
  have hlength : count - line.length = front.length := by
    have hcount : used.length = count := by rw [← hused, List.length_take, Nat.min_eq_left h]
    rw [← hcount, ← hsplit, List.length_append, List.length_reverse, Nat.add_sub_cancel]
  have htake : input.take (count - line.length) = front := by
    calc input.take (count - line.length)
        = used.take (count - line.length) := by
          rw [← hused, List.take_take, Nat.min_eq_left (Nat.sub_le _ _)]
      _ = (front ++ line.reverse).take front.length := by rw [hsplit, hlength]
      _ = front := List.take_left
  rw [htake, ← hsplit, List.count_append, hnone, Nat.add_zero]

end Position

/-- A place is the same in a text and in a stream, unless it took a look at the next byte. -/
theorem Fault.position_eq {fault : Fault} (h : fault.mark ≠ .looked) (input : List UInt8) :
    fault.position .stream input = fault.position .text input := by
  obtain ⟨cause, unread, mark⟩ := fault
  have hused : input.length - unread ≤ input.length := Nat.sub_le _ _
  cases mark with
  | looked => exact absurd rfl h
  | last => exact Position.behind_take hused
  | next =>
    show Position.behind (input.take (input.length - unread + 1)) = _
    rw [List.take_eq_take_min, Nat.min_comm, Position.behind_take (Nat.min_le_left _ _)]
    rfl
  | back count => exact congrArg (Position.back · count) (Position.behind_take hused)

theorem Fault.Usual.cases {fault : Fault} (h : fault.Usual) :
    fault.cause ≠ .invalidUnicode ∧ (fault.mark = .looked → fault.cause = .numberOutOfRange) := by
  obtain ⟨cause, unread, mark⟩ := fault
  cases cause with
  | invalidUnicode => exact h.elim
  | numberOutOfRange => exact ⟨nofun, fun _ => rfl⟩
  | _ =>
    refine ⟨nofun, ?_⟩
    rintro rfl
    exact h.elim

end ChapterCheck.Json

namespace ChapterCheck

open Json

namespace Chapter

/-! ## Refusals -/

/-- **`refusal`** -- the failure to read a chapter, for a cause at a place. -/
def refusal (cause : Cause) (place : Position) : Failure :=
  .serialization (unreadable (cause.text ++ " at line " ++ Nat.repr place.line ++ " column "
    ++ Nat.repr place.column))

/-- How a failure to read a chapter is told. -/
def preamble : String := "serialization error: parse chapter JSON: "

theorem message_unreadable (detail : String) :
    (Failure.serialization (unreadable detail)).message = preamble ++ detail := by
  have hbegin : "serialization error: " ++ "parse chapter JSON: " = preamble := by decide
  calc (Failure.serialization (unreadable detail)).message
      = "serialization error: " ++ ("parse chapter JSON: " ++ detail) := rfl
    _ = "serialization error: " ++ "parse chapter JSON: " ++ detail := String.append_assoc.symm
    _ = preamble ++ detail := congrArg (· ++ detail) hbegin

/-- Two failures to read a chapter are **`RefusedAlike`** -- they tell the same cause, which is not
that something is no Unicode, and the same place, unless a number is out of range. -/
structure RefusedAlike (f g : Failure) : Prop where
  told : ∃ cause p q, f = refusal cause p ∧ g = refusal cause q
    ∧ cause ≠ .invalidUnicode ∧ (p = q ∨ cause = .numberOutOfRange)
  begins : (∃ detail, f.message = preamble ++ detail) ∧ ∃ detail, g.message = preamble ++ detail

theorem ofText_eq_error_iff {text : String} {f : Failure} :
    ofText text = .error f ↔ ∃ fault, Value.ofText text = .error fault
      ∧ refusal fault.cause (fault.position .text (Utf8.bytes text)) = f := by
  unfold ofText
  cases Value.ofText text with
  | ok v => simp
  | error fault => simp [refusal, Fault.message]

theorem ofBytes_eq_error_iff {input : List UInt8} {f : Failure} :
    ofBytes input = .error f ↔ ∃ fault, Value.ofBytes input = .error fault
      ∧ refusal fault.cause (fault.position .stream input) = f := by
  unfold ofBytes
  cases Value.ofBytes input with
  | ok v => simp
  | error fault => simp [refusal, Fault.message]

/-- A text is refused as its bytes are. -/
theorem refusedAlike {text : String} {f g : Failure} (hf : ofText text = .error f)
    (hg : ofBytes (Utf8.bytes text) = .error g) : RefusedAlike f g := by
  obtain ⟨fault, hfault, rfl⟩ := ofText_eq_error_iff.mp hf
  obtain ⟨fault', hfault', rfl⟩ := ofBytes_eq_error_iff.mp hg
  rw [Value.ofText_eq_ofBytes] at hfault
  obtain rfl : fault = fault' := Except.error.inj (hfault.symm.trans hfault')
  have husual := (Value.clean_ofBytes _).usual hfault' (Utf8.encoded_iff_bytes.mpr ⟨text, rfl⟩)
  obtain ⟨hunicode, hlooked⟩ := husual.cases
  refine ⟨⟨_, _, _, rfl, rfl, hunicode, ?_⟩, ⟨_, message_unreadable _⟩, _, message_unreadable _⟩
  by_cases hmark : fault.mark = .looked
  · exact .inr (hlooked hmark)
  · exact .inl (fault.position_eq hmark _).symm

/-! ## Two readings -/

/-- **`decoded_alike`** -- a text is read as a chapter just where its bytes are, and as the same
one, so whatever is said of the one is said of the other. If it is refused, so are its bytes, and
alike. No bytes but those of a text are read as a chapter. -/
theorem decoded_alike :
    (∀ text : String,
      ((∃ v, ofText text = .ok v) ↔ ∃ v, ofBytes (Utf8.bytes text) = .ok v)
      ∧ (∀ v w, ofText text = .ok v → ofBytes (Utf8.bytes text) = .ok w →
        v = w ∧ id? v = id? w ∧ title? v = title? w
        ∧ ∀ validator : Validator, validator.report v = validator.report w)
      ∧ ∀ f g, ofText text = .error f → ofBytes (Utf8.bytes text) = .error g →
        RefusedAlike f g)
    ∧ ∀ input v, ofBytes input = .ok v →
      ∃ text, Utf8.bytes text = input ∧ ofText text = .ok v := by
  have hread {text : String} {v : Value} :
      ofText text = .ok v ↔ ofBytes (Utf8.bytes text) = .ok v := by
    rw [ofText_eq_ok_iff, ofBytes_eq_ok_iff, Value.ofText_eq_ofBytes]
  refine ⟨fun text => ⟨exists_congr fun v => hread, ?_, fun f g => refusedAlike⟩, ?_⟩
  · intro v w hv hw
    obtain rfl : v = w := Except.ok.inj ((hread.mp hv).symm.trans hw)
    exact ⟨rfl, rfl, rfl, fun _ => rfl⟩
  · intro input v h
    have hcuts := (Value.clean_ofBytes input).cuts (ofBytes_eq_ok_iff.mp h)
    obtain ⟨text, rfl⟩ := Utf8.encoded_iff_bytes.mp (hcuts.mpr Utf8.encoded_nil)
    exact ⟨text, rfl, hread.mpr h⟩

/-- What is told instead of a chapter. -/
def told? : Except Failure Value → Option String
  | .ok _ => none
  | .error failure => some failure.message

theorem told?_eq_some_iff {result : Except Failure Value} {message : String} :
    told? result = some message
      ↔ ∃ failure, result = .error failure ∧ failure.message = message := by
  cases result with
  | ok v => simp [told?]
  | error failure => simp [told?]

/-- A number out of range is the one cause that is told at two places. A chapter that is a text of a
letter beyond ASCII is read in both ways, and half of that letter in none. -/
theorem decoded_alike_outOfRange :
    (∃ f g, ofText "[1e999]" = .error f ∧ ofBytes (Utf8.bytes "[1e999]") = .error g
      ∧ RefusedAlike f g
      ∧ f.message = preamble ++ "number out of range at line 1 column 6"
      ∧ g.message = preamble ++ "number out of range at line 1 column 7")
    ∧ (∃ v, ofText "\"é\"" = .ok v ∧ ofBytes [0x22, 0xC3, 0xA9, 0x22] = .ok v)
    ∧ ¬∃ v, ofBytes [0x22, 0xC3, 0x22] = .ok v := by
  obtain ⟨hagree, hbytes⟩ := decoded_alike
  refine ⟨?_, ?_, ?_⟩
  · have hf : told? (ofText "[1e999]")
        = some (preamble ++ "number out of range at line 1 column 6") := by decide +kernel
    have hg : told? (ofBytes (Utf8.bytes "[1e999]"))
        = some (preamble ++ "number out of range at line 1 column 7") := by decide +kernel
    obtain ⟨f, hf, hf'⟩ := told?_eq_some_iff.mp hf
    obtain ⟨g, hg, hg'⟩ := told?_eq_some_iff.mp hg
    exact ⟨f, g, hf, hg, (hagree "[1e999]").2.2 f g hf hg, hf', hg'⟩
  · have hread : told? (ofText "\"é\"") = none := by decide +kernel
    have hletter : Utf8.bytes "\"é\"" = [0x22, 0xC3, 0xA9, 0x22] := by decide
    cases hv : ofText "\"é\"" with
    | error f =>
      rw [hv] at hread
      cases hread
    | ok v =>
      obtain ⟨w, hw⟩ := (hagree "\"é\"").1.mp ⟨v, hv⟩
      obtain ⟨rfl, -⟩ := (hagree "\"é\"").2.1 v w hv hw
      exact ⟨v, rfl, hletter ▸ hw⟩
  · rintro ⟨v, hv⟩
    obtain ⟨text, htext, -⟩ := hbytes _ v hv
    obtain ⟨cs, hcs⟩ := Utf8.encoded_iff_decode.mp (Utf8.encoded_iff_bytes.mpr ⟨text, htext⟩)
    have hdecode : (Utf8.decode [0x22, 0xC3, 0x22]).toBool = false := by decide +kernel
    rw [hcs] at hdecode
    simp [Except.toBool] at hdecode

end Chapter

end ChapterCheck
