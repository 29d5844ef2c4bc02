/-
# ChapterCheck.Json.Quoted -- texts between quotation marks

`quote` writes a text and `readQuoted` reads one. Writing escapes a quotation mark, a backslash and
the characters below `U+0020`, and nothing else. Reading takes more than is ever written: any
character may come as `\u` with four hexadecimal digits, those beyond `U+FFFF` as a pair of
surrogates.

The bytes between the marks are collected first, escapes replaced by the bytes they stand for. In a
stream they are taken one by one and have to be UTF-8 as a whole, which is looked at when the
closing mark is reached; a fault of that kind is therefore found behind the text and told at the
place of its first unreadable byte. In an input that is known to be a text they are taken stretch by
stretch, from one escape to the next, and are characters on trust (`readKnown`). Which of the two is
done is a matter of the source (`Source.quoted`).
-/
import ChapterCheck.Json.Scan
import ChapterCheck.Text.Utf8

namespace ChapterCheck.Json

/-! ## Writing -/

/-- **`escape`** -- how a character stands between quotation marks. -/
def escape (c : Char) : List Char :=
  if c = '"' then ['\\', '"']
  else if c = '\\' then ['\\', '\\']
  else if c = '\x08' then ['\\', 'b']
  else if c = '\x0c' then ['\\', 'f']
  else if c = '\n' then ['\\', 'n']
  else if c = '\r' then ['\\', 'r']
  else if c = '\t' then ['\\', 't']
  else if c.toNat < 0x20 then
    ['\\', 'u', '0', '0', Nat.digitChar (c.toNat / 16), Nat.digitChar (c.toNat % 16)]
  else [c]

/-- **`quote`** -- a text between quotation marks. -/
def quote (s : String) : String :=
  "\"" ++ String.ofList (s.toList.flatMap escape) ++ "\""

/-! ## Escapes -/

/-- What a hexadecimal digit stands for, in either case. -/
def hexValue? (b : UInt8) : Option Nat :=
  if 0x30 ≤ b && b ≤ 0x39 then some (b.toNat - 0x30)
  else if 0x41 ≤ b && b ≤ 0x46 then some (b.toNat - 0x37)
  else if 0x61 ≤ b && b ≤ 0x66 then some (b.toNat - 0x57)
  else none

/-- What four hexadecimal digits stand for. -/
def hexNumber? (a b c d : UInt8) : Option Nat := do
  let a ← hexValue? a
  let b ← hexValue? b
  let c ← hexValue? c
  let d ← hexValue? d
  return ((a * 16 + b) * 16 + c) * 16 + d

/-- Four hexadecimal digits, taken together before they are looked at. -/
def readHex : Reader Nat where
  scan
    | a :: b :: c :: d :: r =>
      match hexNumber? a b c d with
      | some n => .ok ⟨n, r⟩
      | none => .error (.last .invalidEscape r)
    | _ => .error (.last .endInString [])
  shortens := by
    intro s t h
    split at h
    · split at h
      · cases h
        simp only [List.length_cons]
        omega
      · cases h
    · cases h

/-- The first half of a pair. -/
def isLeading (n : Nat) : Bool :=
  0xD800 ≤ n && n ≤ 0xDBFF

/-- The second half of a pair. -/
def isTrailing (n : Nat) : Bool :=
  0xDC00 ≤ n && n ≤ 0xDFFF

/-- The second half of a pair, as an escape of its own. -/
def readTrailing : Reader Nat where
  scan
    | [] => .error (.last .endInString [])
    | b :: s =>
      if glyph b ≠ '\\' then .error (.last .unpairedSurrogate s)
      else
        match s with
        | [] => .error (.last .endInString [])
        | c :: r =>
          if glyph c ≠ 'u' then .error (.last .unpairedSurrogate r)
          else do
            let t ← readHex.scan r
            if isTrailing t.value then return t else throw (.last .loneSurrogate t.rest)
  shortens := by
    intro s t h
    split at h
    · cases h
    · split at h
      · cases h
      · split at h
        · cases h
        · split at h
          · cases h
          · obtain ⟨t', ht, h⟩ := bind_eq_ok.mp h
            have := readHex.shortens ht
            split at h <;> cases h
            exact Nat.lt_succ_of_lt (Nat.lt_succ_of_lt this)

/-- The character that a number stands for, as bytes. -/
def charBytes (n : Nat) : List UInt8 :=
  String.utf8EncodeChar (Char.ofNat n)

/-- The number of the character that a pair stands for. -/
def joined (leading trailing : Nat) : Nat :=
  0x10000 + (leading - 0xD800) * 0x400 + (trailing - 0xDC00)

/-- The byte that an escape of one letter stands for. -/
def shortEscape? (b : UInt8) : Option UInt8 :=
  match glyph b with
  | '"' => some 0x22
  | '\\' => some 0x5C
  | '/' => some 0x2F
  | 'b' => some 0x08
  | 'f' => some 0x0C
  | 'n' => some 0x0A
  | 'r' => some 0x0D
  | 't' => some 0x09
  | _ => none

/-- **`readEscape`** -- the bytes that an escape stands for; the input begins behind its backslash.
-/
def readEscape : Reader (List UInt8) where
  scan
    | [] => .error (.last .endInString [])
    | b :: r =>
      match shortEscape? b with
      | some byte => .ok ⟨[byte], r⟩
      | none =>
        if glyph b ≠ 'u' then .error (.last .invalidEscape r)
        else do
          let t ← readHex.scan r
          if isTrailing t.value then throw (.last .loneSurrogate t.rest)
          else if isLeading t.value then
            let t' ← readTrailing.scan t.rest
            return t'.map fun trailing => charBytes (joined t.value trailing)
          else return t.map charBytes
  shortens := by
    intro s t h
    split at h
    · cases h
    · split at h
      · cases h
        exact Nat.lt_succ_self _
      · split at h
        · cases h
        · obtain ⟨t₁, h₁, h⟩ := bind_eq_ok.mp h
          have := readHex.shortens h₁
          split at h
          · cases h
          · split at h
            · obtain ⟨t₂, h₂, h⟩ := bind_eq_ok.mp h
              have := readTrailing.shortens h₂
              rw [← Except.ok.inj h, Taken.map_rest, List.length_cons]
              omega
            · rw [← Except.ok.inj h, Taken.map_rest, List.length_cons]
              omega

/-! ## Reading off a stream -/

/-- The bytes up to the closing mark. Those before the input are read and stand in `seen`, the last
one first. -/
def readBody (seen : List UInt8) : Scan (List UInt8)
  | [] => .error (.last .endInString [])
  | b :: r =>
    if glyph b = '"' then .ok ⟨seen.reverse, r⟩
    else if glyph b = '\\' then
      match h : readEscape.scan r with
      | .error fault => .error fault
      | .ok t =>
        have := readEscape.shortens h
        readBody (t.value.reverse ++ seen) t.rest
    else if b < 0x20 then .error (.last .controlCharacter r)
    else readBody (b :: seen) r
termination_by s => s.length
decreasing_by all_goals simp only [List.length_cons]; omega

theorem length_readBody_lt {seen s : List UInt8} {t : Taken (List UInt8)}
    (h : readBody seen s = .ok t) : t.rest.length < s.length := by
  fun_induction readBody seen s with
  | case1 => cases h
  | case2 => cases h; exact Nat.lt_succ_self _
  | case3 => cases h
  | case4 _ _ _ _ _ t' _ hr ih =>
    exact Nat.lt_succ_of_lt (Nat.lt_trans (ih (by simpa using h)) hr)
  | case5 => cases h
  | case6 _ _ _ _ _ _ ih => exact Nat.lt_succ_of_lt (ih h)

/-- **`readQuoted`** -- a text in a stream; the input begins behind its opening mark. -/
def readQuoted : Reader String where
  scan s := do
    let t ← readBody [] s
    match Utf8.decode t.value with
    | .ok cs => return ⟨String.ofList cs, t.rest⟩
    | .error unreadable => throw ⟨.invalidUnicode, t.rest.length, .back unreadable.length⟩
  shortens := by
    intro s t h
    obtain ⟨t', ht, h⟩ := bind_eq_ok.mp h
    split at h <;> cases h
    exact length_readBody_lt ht

/-! ## Reading what is known to be a text -/

/-- A byte that stands for itself between quotation marks. -/
def isPlain (b : UInt8) : Prop :=
  b.toNat ≠ 0x22 ∧ b.toNat ≠ 0x5C ∧ 0x20 ≤ b.toNat

instance (b : UInt8) : Decidable (isPlain b) :=
  inferInstanceAs (Decidable (_ ∧ _))

/-- The bytes up to the closing mark, a stretch at a time. Those before the input are read and stand
in `seen`, the last one first. -/
def readStretches (seen s : List UInt8) : Except Fault (Taken (List UInt8)) :=
  match hs : s.dropWhile (isPlain ·) with
  | [] => .error (.last .endInString [])
  | b :: r =>
    if glyph b = '"' then .ok ⟨seen.reverse ++ s.takeWhile (isPlain ·), r⟩
    else if glyph b = '\\' then
      match h : readEscape.scan r with
      | .error fault => .error fault
      | .ok t =>
        have := readEscape.shortens h
        have : r.length < s.length := length_lt_of_dropWhile hs
        readStretches (t.value.reverse ++ ((s.takeWhile (isPlain ·)).reverse ++ seen)) t.rest
    else .error (.last .controlCharacter r)
termination_by s.length
decreasing_by omega

theorem length_readStretches_lt {seen s : List UInt8} {t : Taken (List UInt8)}
    (h : readStretches seen s = .ok t) : t.rest.length < s.length := by
  fun_induction readStretches seen s with
  | case1 => cases h
  | case2 _ _ _ _ hs =>
    cases h
    exact length_lt_of_dropWhile hs
  | case3 => cases h
  | case4 _ _ _ _ _ _ _ _ _ hr hs ih => exact Nat.lt_trans (ih h) (Nat.lt_trans hr hs)
  | case5 => cases h

/-- **`readKnown`** -- a text in an input that is known to be one; the input begins behind its
opening mark. -/
def readKnown : Reader String where
  scan s := do
    let t ← readStretches [] s
    return ⟨String.ofList (Utf8.trust t.value), t.rest⟩
  shortens := by
    intro s t h
    obtain ⟨t', ht, h⟩ := bind_eq_ok.mp h
    cases h
    exact length_readStretches_lt ht

/-- **`Source.quoted`** -- how texts are read off a source. -/
def Source.quoted : Source → Reader String
  | .text => readKnown
  | .stream => readQuoted

@[simp] theorem Source.quoted_text : Source.text.quoted = readKnown := rfl

@[simp] theorem Source.quoted_stream : Source.stream.quoted = readQuoted := rfl

end ChapterCheck.Json
