/-
# ChapterCheck.Proofs.Sources -- a text is read off a stream as it is read at hand

A text at hand is read stretch by stretch, and its bytes are characters on trust; a stream is read
byte by byte, and what stands between quotation marks is checked. Of the bytes of a text both make
the same document, or refuse it with the same fault (`Value.ofText_eq_ofBytes`).

The grammar is one for both sources, so all depends on the points where texts between marks are
read: there the trust has to be deserved. It is if what is left to read is a text at each of these
points, which is what clean readers keep up. The loops over entries and the nesting of values carry
it along, by induction on the run of the stream (`Alike`).
-/
import ChapterCheck.Proofs.Clean

namespace ChapterCheck.Json

open Utf8

/-! ## Texts between marks -/

/-- A stretch is taken at once as it is taken byte by byte. -/
theorem readBody_stretch (seen s : List UInt8) :
    readBody seen s
      = readBody ((s.takeWhile (isPlain ·)).reverse ++ seen) (s.dropWhile (isPlain ·)) := by
  have hplain : ∀ b ∈ s.takeWhile (isPlain ·), isPlain b := by
    intro b hb
    exact of_decide_eq_true (List.all_eq_true.mp List.all_takeWhile b hb)
  rw [← readBody_plains _ seen hplain, List.takeWhile_append_dropWhile]

/-- A byte at which a stretch ends, and that is no mark, is a control character. -/
theorem lt_of_not_isPlain {b : UInt8} (h : ¬isPlain b) (hmark : ¬glyph b = '"')
    (hslash : ¬glyph b = '\\') : b < 0x20 := by
  rw [glyph_eq_iff] at hmark hslash
  rw [UInt8.lt_iff_toNat_lt]
  exact Nat.lt_of_not_le fun hle => h ⟨hmark, hslash, hle⟩

/-- **`readStretches_eq`** -- the bytes up to the closing mark are the same, stretch by stretch and
byte by byte. -/
theorem readStretches_eq (seen s : List UInt8) : readStretches seen s = readBody seen s := by
  rw [readBody_stretch]
  fun_induction readStretches seen s with
  | case1 seen s hs => rw [hs, readBody]
  | case2 seen s b r hs hmark =>
    rw [hs, readBody, if_pos hmark, List.reverse_append, List.reverse_reverse]
  | case3 seen s b r hs hmark hslash fault hescape =>
    rw [hs, readBody, if_neg hmark, if_pos hslash]
    split <;> rename_i he <;> rw [hescape] at he <;> cases he
    rfl
  | case4 seen s b r hs hmark hslash t hescape _ _ ih =>
    rw [hs, readBody, if_neg hmark, if_pos hslash]
    split <;> rename_i he <;> rw [hescape] at he <;> cases he
    rw [ih, ← readBody_stretch]
  | case5 seen s b r hs hmark hslash =>
    have hends : ¬isPlain b := by
      have hall := List.head?_dropWhile_not (isPlain ·) s
      rw [hs] at hall
      simpa using hall
    rw [hs, readBody, if_neg hmark, if_neg hslash,
      if_pos (lt_of_not_isPlain hends hmark hslash)]

/-- What goes on alike behind every result of a step goes on alike behind the step. -/
theorem bind_congr_ok {ε α β : Type} {x : Except ε α} {f g : α → Except ε β}
    (h : ∀ a, x = .ok a → f a = g a) : x >>= f = x >>= g := by
  cases x with
  | error e => rfl
  | ok a => exact h a rfl

/-- Two readers are **`Alike`** -- the one does with a text at hand what the other one does with a
text that comes as a stream. -/
def Alike {α : Type} (atHand streaming : Reader α) : Prop :=
  ∀ s, Encoded s → atHand.scan s = streaming.scan s

/-- Where a text is read, the bytes between the marks are those of a text, so the trust in them is
deserved. -/
theorem quoted_alike : Alike Source.text.quoted Source.stream.quoted := by
  intro s henc
  simp only [Source.quoted, readKnown, readQuoted, readStretches_eq]
  refine bind_congr_ok fun t hbody => ?_
  have hvalue : Encoded t.value := (((readBody_spec [] s).1 hbody).mp henc).1
  obtain ⟨cs, hcs⟩ := encoded_iff_decode.mp hvalue
  simp only [hcs, trust_of_decode hcs]

/-! ## The loops -/

section Loops

variable {α : Type}

theorem readElements_alike {atHand streaming : Reader α} (h : Alike atHand streaming)
    (hclean : streaming.Clean) (first : Bool) (seen : List α) (s : List UInt8) (hs : Encoded s) :
    readElements atHand first seen s = readElements streaming first seen s := by
  rw [readElements_eq atHand, readElements_eq streaming]
  refine bind_congr_ok fun ahead hnext => ?_
  cases ahead with
  | closed rest => rfl
  | entry rest =>
    have hrest : Encoded rest := ((clean_nextElement first s).cuts hnext).mp hs
    show atHand.scan rest >>= _ = streaming.scan rest >>= _
    rw [h rest hrest]
    refine bind_congr_ok fun t helement => ?_
    have : rest.length ≤ s.length := length_nextElement_le hnext
    have := streaming.shortens helement
    exact readElements_alike h hclean false _ t.rest (((hclean rest).cuts helement).mp hrest)
termination_by s.length
decreasing_by omega

theorem readMembers_alike {atHand streaming : List (String × α) → String → Reader α}
    (h : ∀ seen key, Alike (atHand seen key) (streaming seen key))
    (hclean : ∀ seen key, (streaming seen key).Clean) (first : Bool) (seen : List (String × α))
    (s : List UInt8) (hs : Encoded s) :
    readMembers .text atHand first seen s = readMembers .stream streaming first seen s := by
  rw [readMembers_eq .text atHand, readMembers_eq .stream streaming]
  refine bind_congr_ok fun ahead hnext => ?_
  cases ahead with
  | closed rest => rfl
  | entry rest =>
    have hrest : Encoded rest := ((clean_nextMember first s).cuts hnext).mp hs
    show Source.text.quoted.scan rest >>= _ = Source.stream.quoted.scan rest >>= _
    rw [quoted_alike rest hrest]
    refine bind_congr_ok fun key hkey => ?_
    have hbehind : Encoded key.rest := ((clean_readQuoted rest).cuts hkey).mp hrest
    rw [h seen key.value key.rest hbehind]
    refine bind_congr_ok fun t hmember => ?_
    have : rest.length ≤ s.length := length_nextMember_le hnext
    have := Source.stream.quoted.shortens hkey
    have := (streaming seen key.value).shortens hmember
    exact readMembers_alike h hclean false _ t.rest (((hclean _ _ _).cuts hmember).mp hbehind)
termination_by s.length
decreasing_by omega

theorem afterColon_alike {atHand streaming : Reader α} (h : Alike atHand streaming) :
    Alike (afterColon atHand) (afterColon streaming) := by
  intro s hs
  simp only [afterColon]
  cases hcolon : colon s with
  | error fault => rfl
  | ok rest => exact h rest (((clean_colon s).cuts hcolon).mp hs)

end Loops

/-! ## Documents -/

theorem readWith_alike {atHand streaming : Option (Reader Value)}
    (h : Option.Rel (fun part part' => Alike part part' ∧ part'.Clean) atHand streaming) :
    Alike (readWith .text atHand) (readWith .stream streaming) := by
  intro s hs
  simp only [readWith]
  cases hb : skipBlanks s with
  | nil => rfl
  | cons b r =>
    dsimp only
    have hbr : Encoded (b :: r) := (cuts_of_skipBlanks hb).mp hs
    cases hlead : lead? b with
    | none => cases h <;> rfl
    | some lead =>
      have hr : Encoded r := (cuts_cons (toNat_lt_of_lead hlead) r).mp hbr
      cases lead with
      | word letters value => cases h <;> rfl
      | number => cases h <;> rfl
      | text =>
        have htext := quoted_alike r hr
        cases h <;> exact congrArg (Except.map (Taken.map Value.string)) htext
      | list =>
        cases h with
        | none => rfl
        | some hpart =>
          obtain ⟨halike, hclean⟩ := hpart
          have hlist := readElements_alike halike hclean true [] r hr
          exact congrArg (Except.map (Taken.map Value.array)) hlist
      | object =>
        cases h with
        | none => rfl
        | some hpart =>
          obtain ⟨halike, hclean⟩ := hpart
          have hobject := readMembers_alike (fun _ _ => afterColon_alike halike)
            (fun _ _ => clean_afterColon hclean) true [] r hr
          exact congrArg
            (Except.map (Taken.map fun written => Value.object (Members.ofList written))) hobject

/-- By induction on the room, as the parts of a value are read with less of it. -/
theorem readValue_alike : ∀ room, Alike (readValue .text room) (readValue .stream room)
  | 0 => readWith_alike .none
  | room + 1 => readWith_alike (.some ⟨readValue_alike room, clean_readValue room⟩)

/-- **`ofText_eq_ofBytes`** -- a text is the document that its bytes are, and refused as they are.
-/
theorem Value.ofText_eq_ofBytes (text : String) : ofText text = ofBytes (bytes text) := by
  have halike := readValue_alike maxNesting (bytes text) (encoded_iff_bytes.mpr ⟨text, rfl⟩)
  rw [ofText, ofBytes, toEnd, toEnd, halike]

end ChapterCheck.Json
