/-
# ChapterCheck.Json.Quoted.RoundTrip -- what is written between quotation marks is read back

A character is written in one of three ways: as an escape of one letter, as an escape of four
digits, or as itself (`escape_cases`). Each way, reading its written form off the front of the input
adds the bytes of the character to those seen, whatever follows (`readBody_escapedChar`); so a text
comes back as a whole (`readQuoted_escape`).
-/
import ChapterCheck.Json.Quoted

namespace ChapterCheck.Json

/-! ## Bytes that stand for themselves -/

theorem toNat_charOfNat : ∀ n < 256, (Char.ofNat n).toNat = n := by
  decide +kernel

theorem glyph_eq_iff {b : UInt8} {c : Char} : glyph b = c ↔ b.toNat = c.toNat := by
  rw [← Char.toNat_inj, glyph, toNat_charOfNat b.toNat b.toNat_lt]

theorem readBody_plain {b : UInt8} (seen r : List UInt8) (h : isPlain b) :
    readBody seen (b :: r) = readBody (b :: seen) r := by
  have hq : glyph b ≠ '"' := fun e => h.1 (glyph_eq_iff.mp e)
  have hs : glyph b ≠ '\\' := fun e => h.2.1 (glyph_eq_iff.mp e)
  have hc : ¬b < 0x20 := fun e => Nat.not_lt.mpr h.2.2 (UInt8.lt_iff_toNat_lt.mp e)
  rw [readBody, if_neg hq, if_neg hs, if_neg hc]

theorem readBody_plains (s : List UInt8) : ∀ {bs : List UInt8} (seen : List UInt8),
    (∀ b ∈ bs, isPlain b) → readBody seen (bs ++ s) = readBody (bs.reverse ++ seen) s
  | [], _, _ => rfl
  | b :: bs, seen, h => by
    rw [List.cons_append, readBody_plain _ _ (h b List.mem_cons_self),
      readBody_plains s _ fun x hx => h x (List.mem_cons_of_mem _ hx), List.reverse_cons,
      List.append_assoc, List.singleton_append]

/-! ## Escapes -/

theorem readBody_escape {r : List UInt8} {t : Taken (List UInt8)} (seen : List UInt8)
    (h : readEscape.scan r = .ok t) :
    readBody seen (0x5C :: r) = readBody (t.value.reverse ++ seen) t.rest := by
  have hq : glyph 0x5C ≠ '"' := by decide
  have hs : glyph 0x5C = '\\' := by decide
  rw [readBody, if_neg hq, if_pos hs]
  split
  · rename_i he
    rw [h] at he
    cases he
  · rename_i he
    rw [h] at he
    cases he
    rfl

theorem readEscape_letter {letter byte : UInt8} (s : List UInt8)
    (h : shortEscape? letter = some byte) : readEscape.scan (letter :: s) = .ok ⟨[byte], s⟩ := by
  simp only [readEscape, h]

theorem readEscape_unicode {a b c d : UInt8} {n : Nat} (s : List UInt8)
    (h : hexNumber? a b c d = some n) (hl : isLeading n = false) (ht : isTrailing n = false) :
    readEscape.scan (0x75 :: a :: b :: c :: d :: s) = .ok ⟨charBytes n, s⟩ := by
  have hu : glyph 0x75 = 'u' := by decide
  have hs : shortEscape? 0x75 = none := by decide
  simp only [readEscape, readHex, hs, hu, h, hl, ht, ne_eq, not_true_eq_false, if_false, bind,
    Except.bind, Bool.false_eq_true]
  rfl

/-! ## Characters -/

theorem isPlain_of_mem_utf8EncodeChar {c : Char} (h₀ : c.toNat ≠ 0x22) (h₁ : c.toNat ≠ 0x5C)
    (h₂ : 0x20 ≤ c.toNat) : ∀ b ∈ String.utf8EncodeChar c, isPlain b := by
  intro b hb
  obtain ⟨hmax, -⟩ := Utf8.toNat_bounds c
  rw [Utf8.utf8EncodeChar_eq] at hb
  split at hb
  · rw [List.mem_singleton.mp hb, isPlain, Utf8.toNat_ofNat (by omega)]
    exact ⟨h₀, h₁, h₂⟩
  · have high : 0x80 ≤ b.toNat := by
      split at hb
      · simp only [List.mem_cons, List.not_mem_nil, or_false] at hb
        rcases hb with rfl | rfl <;> rw [Utf8.toNat_ofNat (by omega)] <;> omega
      · split at hb
        · simp only [List.mem_cons, List.not_mem_nil, or_false] at hb
          rcases hb with rfl | rfl | rfl <;> rw [Utf8.toNat_ofNat (by omega)] <;> omega
        · simp only [List.mem_cons, List.not_mem_nil, or_false] at hb
          rcases hb with rfl | rfl | rfl | rfl <;> rw [Utf8.toNat_ofNat (by omega)] <;> omega
    exact ⟨by omega, by omega, by omega⟩

theorem utf8EncodeChar_digitChar :
    ∀ d < 16, String.utf8EncodeChar (Nat.digitChar d) = [UInt8.ofNat (Nat.digitChar d).toNat] := by
  decide

theorem hexValue?_digitChar :
    ∀ d < 16, hexValue? (UInt8.ofNat (Nat.digitChar d).toNat) = some d := by
  decide

/-- The ways in which a character is escaped. -/
theorem escape_cases (c : Char) :
    (∃ letter byte, Utf8.encode (escape c) = [0x5C, letter] ∧ shortEscape? letter = some byte
      ∧ String.utf8EncodeChar c = [byte])
    ∨ (c.toNat < 0x20 ∧ escape c =
        ['\\', 'u', '0', '0', Nat.digitChar (c.toNat / 16), Nat.digitChar (c.toNat % 16)])
    ∨ (c.toNat ≠ 0x22 ∧ c.toNat ≠ 0x5C ∧ 0x20 ≤ c.toNat ∧ escape c = [c]) := by
  unfold escape
  by_cases h₀ : c = '"'
  · exact .inl ⟨0x22, 0x22, by subst h₀; decide⟩
  by_cases h₁ : c = '\\'
  · exact .inl ⟨0x5C, 0x5C, by subst h₁; decide⟩
  by_cases h₂ : c = '\x08'
  · exact .inl ⟨0x62, 0x08, by subst h₂; decide⟩
  by_cases h₃ : c = '\x0c'
  · exact .inl ⟨0x66, 0x0C, by subst h₃; decide⟩
  by_cases h₄ : c = '\n'
  · exact .inl ⟨0x6E, 0x0A, by subst h₄; decide⟩
  by_cases h₅ : c = '\r'
  · exact .inl ⟨0x72, 0x0D, by subst h₅; decide⟩
  by_cases h₆ : c = '\t'
  · exact .inl ⟨0x74, 0x09, by subst h₆; decide⟩
  rw [if_neg h₀, if_neg h₁, if_neg h₂, if_neg h₃, if_neg h₄, if_neg h₅, if_neg h₆]
  by_cases h₇ : c.toNat < 0x20
  · exact .inr (.inl ⟨h₇, if_pos h₇⟩)
  · exact .inr (.inr ⟨fun h => h₀ (Char.toNat_inj.mp h), fun h => h₁ (Char.toNat_inj.mp h),
      Nat.not_lt.mp h₇, if_neg h₇⟩)

theorem readBody_escapedChar (c : Char) (seen s : List UInt8) :
    readBody seen (Utf8.encode (escape c) ++ s)
      = readBody ((String.utf8EncodeChar c).reverse ++ seen) s := by
  rcases escape_cases c with ⟨letter, byte, he, hs, hc⟩ | ⟨hc, he⟩ | ⟨h₀, h₁, h₂, he⟩
  · rw [he, hc]
    exact readBody_escape seen (readEscape_letter s hs)
  · have h₁ : c.toNat / 16 < 16 := by omega
    have h₂ : c.toNat % 16 < 16 := by omega
    have hn : hexNumber? 0x30 0x30 (UInt8.ofNat (Nat.digitChar (c.toNat / 16)).toNat)
        (UInt8.ofNat (Nat.digitChar (c.toNat % 16)).toNat) = some c.toNat := by
      have hz : hexValue? 0x30 = some 0 := by decide
      have hv : ((0 * 16 + 0) * 16 + c.toNat / 16) * 16 + c.toNat % 16 = c.toNat := by omega
      simp only [hexNumber?, hz, hexValue?_digitChar _ h₁, hexValue?_digitChar _ h₂,
        Option.pure_def, Option.bind_eq_bind, Option.bind_some, hv]
    have hl : isLeading c.toNat = false := by
      simp only [isLeading, Bool.and_eq_false_iff, decide_eq_false_iff_not]
      omega
    have ht : isTrailing c.toNat = false := by
      simp only [isTrailing, Bool.and_eq_false_iff, decide_eq_false_iff_not]
      omega
    have hw : Utf8.encode (escape c) ++ s = 0x5C :: 0x75 :: 0x30 :: 0x30 ::
        UInt8.ofNat (Nat.digitChar (c.toNat / 16)).toNat ::
        UInt8.ofNat (Nat.digitChar (c.toNat % 16)).toNat :: s := by
      have hs : String.utf8EncodeChar '\\' = [0x5C] := by decide
      have hu : String.utf8EncodeChar 'u' = [0x75] := by decide
      have h0 : String.utf8EncodeChar '0' = [0x30] := by decide
      simp only [he, Utf8.encode_cons, Utf8.encode_nil, hs, hu, h0,
        utf8EncodeChar_digitChar _ h₁, utf8EncodeChar_digitChar _ h₂, List.cons_append,
        List.nil_append]
    rw [hw, readBody_escape seen (readEscape_unicode s hn hl ht), charBytes, Char.ofNat_toNat]
  · rw [he, Utf8.encode_cons, Utf8.encode_nil, List.append_nil]
    exact readBody_plains s seen (isPlain_of_mem_utf8EncodeChar h₀ h₁ h₂)

/-! ## Texts -/

theorem readBody_escapedText (rest : List UInt8) : ∀ (cs : List Char) (seen : List UInt8),
    readBody seen (Utf8.encode (cs.flatMap escape) ++ 0x22 :: rest)
      = .ok ⟨seen.reverse ++ Utf8.encode cs, rest⟩
  | [], seen => by
    have hq : glyph 0x22 = '"' := by decide
    rw [List.flatMap_nil, Utf8.encode_nil, List.nil_append, List.append_nil, readBody, if_pos hq]
  | c :: cs, seen => by
    rw [List.flatMap_cons, Utf8.encode_append, List.append_assoc, readBody_escapedChar,
      readBody_escapedText rest cs, List.reverse_append, List.reverse_reverse, Utf8.encode_cons,
      List.append_assoc]

/-- **`readQuoted_escape`** -- what is written between quotation marks is read back, whatever stands
behind the closing mark. -/
theorem readQuoted_escape (s : String) (rest : List UInt8) :
    readQuoted.scan (Utf8.encode (s.toList.flatMap escape) ++ 0x22 :: rest) = .ok ⟨s, rest⟩ := by
  simp only [readQuoted, readBody_escapedText, bind, Except.bind, List.reverse_nil,
    List.nil_append, Utf8.decode_encode, String.ofList_toList]
  rfl

end ChapterCheck.Json
