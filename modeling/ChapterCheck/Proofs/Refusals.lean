/-
# ChapterCheck.Proofs.Refusals -- for which causes a text is refused as a document

Most causes of a fault say what makes a text no document; the last four say what makes a document
unfit for a record with known fields, and they are the only ones that quote the text. The main
statement is `Value.textual_ofBytes`: where a document is read, the cause is never one of those
four. It is shown scan by scan: `Textual` holds of a result if it holds of every step on the way.
-/
import ChapterCheck.Json.Reader
import ChapterCheck.Proofs.OneLine

namespace ChapterCheck.Json

/-! ## Causes and results -/

/-- A **`Textual`** cause -- the text is no document. -/
def Cause.Textual : Cause → Prop
  | .unknownField _ _ => False
  | .duplicateField _ => False
  | .wrongType _ _ => False
  | .wrongValue _ _ => False
  | _ => True

/-- Such a cause has a wording of its own, which is one line. -/
theorem Cause.Textual.oneLine {cause : Cause} (h : cause.Textual) : Text.OneLine cause.text := by
  cases cause with
  | unknownField => exact h.elim
  | duplicateField => exact h.elim
  | wrongType => exact h.elim
  | wrongValue => exact h.elim
  | _ => decide

/-- A result whose fault, if it is one, has a textual cause. -/
def TextualFault {α : Type} (result : Except Fault α) : Prop :=
  ∀ fault, result = .error fault → fault.cause.Textual

section Results

variable {α β : Type}

theorem textual_ok (a : α) : TextualFault (.ok a) :=
  nofun

theorem textual_error {fault : Fault} (h : fault.cause.Textual) :
    TextualFault (.error fault : Except Fault α) := by
  rintro _ ⟨⟩
  exact h

theorem textual_bind {x : Except Fault α} {f : α → Except Fault β} (hx : TextualFault x)
    (hf : ∀ a, TextualFault (f a)) : TextualFault (x >>= f) := by
  intro fault h
  cases x with
  | ok a => exact hf a fault h
  | error e =>
    obtain rfl : e = fault := Except.error.inj h
    exact hx e rfl

theorem textual_map {x : Except Fault α} (hx : TextualFault x) (f : α → β) :
    TextualFault (x.map f) := by
  intro fault h
  cases x with
  | ok a => cases h
  | error e =>
    obtain rfl : e = fault := Except.error.inj h
    exact hx e rfl

end Results

/-- A reader whose faults all have textual causes. -/
def Reader.Textual {α : Type} (reader : Reader α) : Prop :=
  ∀ s, TextualFault (reader.scan s)

/-! ## Words and separators -/

theorem textual_spelled : ∀ (word : List Char) (s : List UInt8), TextualFault (spelled word s)
  | [], s => textual_ok s
  | _ :: _, [] => textual_error trivial
  | c :: word, b :: r => by
    rw [spelled]
    split
    · exact textual_spelled word r
    · exact textual_error trivial

theorem textual_nextElement (first : Bool) (s : List UInt8) :
    TextualFault (nextElement first s) := by
  unfold nextElement
  repeat' split
  all_goals first | exact textual_ok _ | exact textual_error trivial

theorem textual_nextMember (first : Bool) (s : List UInt8) :
    TextualFault (nextMember first s) := by
  unfold nextMember
  repeat' split
  all_goals first | exact textual_ok _ | exact textual_error trivial

theorem textual_colon (s : List UInt8) : TextualFault (colon s) := by
  unfold colon
  repeat' split
  all_goals first | exact textual_ok _ | exact textual_error trivial

/-! ## Numbers -/

theorem textual_readWhole (s : List UInt8) : TextualFault (readWhole s) := by
  unfold readWhole
  repeat' split
  all_goals first | exact textual_ok _ | exact textual_error trivial

theorem textual_readFraction (s : List UInt8) : TextualFault (readFraction s) := by
  unfold readFraction
  repeat' split
  all_goals first | exact textual_ok _ | exact textual_error trivial

theorem textual_readExponent (s : List UInt8) : TextualFault (readExponent s) := by
  unfold readExponent
  repeat' split
  all_goals first | exact textual_ok _ | exact textual_error trivial

theorem Numeral.textual_read : Numeral.read.Textual := by
  intro s
  refine textual_bind (textual_readWhole _) fun whole => ?_
  refine textual_bind (textual_readFraction _) fun fraction => ?_
  exact textual_bind (textual_readExponent _) fun exponent => textual_ok _

theorem Number.textual_read : Number.read.Textual := by
  intro s
  refine textual_bind (Numeral.textual_read s) fun numeral => ?_
  split
  · exact textual_ok _
  · exact textual_error trivial
  · exact textual_error trivial

/-! ## Texts -/

theorem textual_readHex : readHex.Textual := by
  intro s
  unfold readHex
  dsimp only
  repeat' split
  all_goals first | exact textual_ok _ | exact textual_error trivial

theorem textual_readTrailing : readTrailing.Textual := by
  intro s
  unfold readTrailing
  dsimp only
  split
  · exact textual_error trivial
  · split
    · exact textual_error trivial
    · split
      · exact textual_error trivial
      · split
        · exact textual_error trivial
        · refine textual_bind (textual_readHex _) fun hex => ?_
          split
          · exact textual_ok _
          · exact textual_error trivial

theorem textual_readEscape : readEscape.Textual := by
  intro s
  unfold readEscape
  dsimp only
  split
  · exact textual_error trivial
  · split
    · exact textual_ok _
    · split
      · exact textual_error trivial
      · refine textual_bind (textual_readHex _) fun hex => ?_
        split
        · exact textual_error trivial
        · split
          · exact textual_bind (textual_readTrailing _) fun trailing => textual_ok _
          · exact textual_ok _

theorem textual_readBody (seen s : List UInt8) : TextualFault (readBody seen s) := by
  fun_induction readBody seen s with
  | case1 => exact textual_error trivial
  | case2 => exact textual_ok _
  | case3 _ _ _ _ _ fault hescape => exact textual_error (textual_readEscape _ fault hescape)
  | case4 _ _ _ _ _ _ _ _ ih => simpa using ih
  | case5 => exact textual_error trivial
  | case6 _ _ _ _ _ _ ih => exact ih

theorem textual_readQuoted : readQuoted.Textual := by
  intro s
  refine textual_bind (textual_readBody [] s) fun body => ?_
  split
  · exact textual_ok _
  · exact textual_error trivial

/-! ## Documents -/

theorem textual_readElements {α : Type} {element : Reader α} (h : element.Textual) (first : Bool)
    (seen : List α) (s : List UInt8) : TextualFault (readElements element first seen s) := by
  fun_induction readElements element first seen s with
  | case1 _ _ _ fault hnext => exact textual_error (textual_nextElement _ _ fault hnext)
  | case2 => exact textual_ok _
  | case3 _ _ _ _ _ fault helement => exact textual_error (h _ fault helement)
  | case4 _ _ _ _ _ _ _ _ _ ih => exact ih

theorem textual_readMembers {α : Type} {member : List (String × α) → String → Reader α}
    (h : ∀ seen key, (member seen key).Textual) (first : Bool) (seen : List (String × α))
    (s : List UInt8) : TextualFault (readMembers .stream member first seen s) := by
  fun_induction readMembers .stream member first seen s with
  | case1 _ _ _ fault hnext => exact textual_error (textual_nextMember _ _ fault hnext)
  | case2 => exact textual_ok _
  | case3 _ _ _ _ _ fault hkey => exact textual_error (textual_readQuoted _ fault hkey)
  | case4 _ _ _ _ _ _ _ fault hmember => exact textual_error (h _ _ _ fault hmember)
  | case5 _ _ _ _ _ _ _ _ _ _ _ _ ih => exact ih

theorem textual_afterColon {α : Type} {value : Reader α} (h : value.Textual) :
    (afterColon value).Textual :=
  fun s => textual_bind (textual_colon s) fun rest => h rest

theorem textual_readWith {inner : Option (Reader Value)} (h : ∀ part ∈ inner, part.Textual) :
    (readWith .stream inner).Textual := by
  intro s
  unfold readWith
  dsimp only
  split
  · exact textual_error trivial
  · split
    · exact textual_error trivial
    · exact textual_map (textual_spelled _ _) _
    · exact textual_map (Number.textual_read _) _
    · exact textual_map (textual_readQuoted _) _
    · exact textual_error trivial
    · exact textual_error trivial
    · exact textual_map (textual_readElements (h _ rfl) _ _ _) _
    · have hpart := textual_afterColon (h _ rfl)
      exact textual_map (textual_readMembers (fun _ _ => hpart) _ _ _) _

/-- By induction on the room: the parts of a value are read with less of it. -/
theorem textual_readValue : ∀ room, (readValue .stream room).Textual
  | 0 => textual_readWith nofun
  | room + 1 => textual_readWith fun _ hpart => Option.some.inj hpart ▸ textual_readValue room

/-- **`textual_ofBytes`** -- where a document is read, a fault has a textual cause. -/
theorem Value.textual_ofBytes (input : List UInt8) : TextualFault (ofBytes input) := by
  refine textual_bind (textual_readValue maxNesting input) fun taken => ?_
  split
  · exact textual_ok _
  · exact textual_error trivial

/-- So the fault is told in one line. -/
theorem Value.oneLine_of_ofBytes {input : List UInt8} {fault : Fault}
    (h : ofBytes input = .error fault) (source : Source) :
    Text.OneLine (fault.message source input) :=
  Fault.oneLine_message (textual_ofBytes input fault h).oneLine source input

end ChapterCheck.Json
