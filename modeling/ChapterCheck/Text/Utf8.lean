/-
# ChapterCheck.Text.Utf8 -- characters as bytes

`encode` writes characters as UTF-8, and `decode` reads them back (`decode_encode`). What no
sequence of characters is written as is refused: a stray continuation byte, a sequence that is cut
short, an overlong form, a surrogate, a value beyond `U+10FFFF`. A refusal hands back the bytes from
the first one that could not be read, so the length of the readable part is known to the caller.

`trust` reads bytes that are known to be those of a text and looks at nothing that could refuse
them; `lossy` reads any bytes, with a replacement character for what is no character. Where `decode`
reads characters, they are the ones that both read (`trust_of_decode`, `lossy_of_decode`).
-/

namespace ChapterCheck.Utf8

/-- **`encode`** -- the bytes of a list of characters. -/
def encode (cs : List Char) : List UInt8 :=
  cs.flatMap String.utf8EncodeChar

/-- **`bytes`** -- the bytes of a text. -/
def bytes (s : String) : List UInt8 :=
  encode s.toList

/-- A byte that continues a character: `10xxxxxx`. -/
def isContinuation (b : UInt8) : Prop :=
  0x80 ≤ b.toNat ∧ b.toNat ≤ 0xBF

instance (b : UInt8) : Decidable (isContinuation b) :=
  inferInstanceAs (Decidable (_ ∧ _))

/-- The six bits that a continuation byte carries. -/
def tail (b : UInt8) : Nat :=
  b.toNat % 64

/-- A character read off the front of `s`, and what is left. -/
structure Front (s : List UInt8) where
  char : Char
  rest : List UInt8
  shorter : rest.length < s.length

/-- **`front?`** -- the character that `s` begins with. The bounds on the second byte rule out
overlong forms (`E0`, `F0`), surrogates (`ED`) and values beyond the last character (`F4`). -/
def front? : (s : List UInt8) → Option (Front s)
  | [] => none
  | a :: r =>
    if a.toNat < 0x80 then some ⟨Char.ofNat a.toNat, r, Nat.lt_succ_self _⟩
    else if a.toNat < 0xC2 then none
    else if a.toNat < 0xE0 then
      match r with
      | b :: r =>
        if isContinuation b then
          some ⟨Char.ofNat (a.toNat % 32 * 64 + tail b), r,
            by simp only [List.length_cons]; omega⟩
        else none
      | _ => none
    else if a.toNat < 0xF0 then
      match r with
      | b :: c :: r =>
        if isContinuation b ∧ isContinuation c
            ∧ (a.toNat = 0xE0 → 0xA0 ≤ b.toNat) ∧ (a.toNat = 0xED → b.toNat ≤ 0x9F) then
          some ⟨Char.ofNat ((a.toNat % 16 * 64 + tail b) * 64 + tail c), r,
            by simp only [List.length_cons]; omega⟩
        else none
      | _ => none
    else if a.toNat < 0xF5 then
      match r with
      | b :: c :: d :: r =>
        if isContinuation b ∧ isContinuation c ∧ isContinuation d
            ∧ (a.toNat = 0xF0 → 0x90 ≤ b.toNat) ∧ (a.toNat = 0xF4 → b.toNat ≤ 0x8F) then
          some ⟨Char.ofNat (((a.toNat % 8 * 64 + tail b) * 64 + tail c) * 64 + tail d), r,
            by simp only [List.length_cons]; omega⟩
        else none
      | _ => none
    else none

/-- Reads characters behind those in `seen`, which are held last one first. -/
def decodeAfter (seen : List Char) (s : List UInt8) : Except (List UInt8) (List Char) :=
  match s with
  | [] => .ok seen.reverse
  | a :: r =>
    match front? (a :: r) with
    | none => .error (a :: r)
    | some ⟨c, rest, _⟩ => decodeAfter (c :: seen) rest
termination_by s.length
decreasing_by assumption

/-- **`decode`** -- the characters that `s` holds, or the part of `s` from the first byte that
begins no character. -/
def decode (s : List UInt8) : Except (List UInt8) (List Char) :=
  decodeAfter [] s

/-- What is left behind a character that breaks off: its first byte `a` is gone, and so are the
bytes behind it that it could have gone on with. -/
def afterBroken (a : UInt8) (r : List UInt8) : List UInt8 :=
  match r with
  | [] => []
  | b :: r' =>
    if 0xE0 ≤ a.toNat ∧ a.toNat < 0xF5 ∧ isContinuation b
        ∧ (a.toNat = 0xE0 → 0xA0 ≤ b.toNat) ∧ (a.toNat = 0xED → b.toNat ≤ 0x9F)
        ∧ (a.toNat = 0xF0 → 0x90 ≤ b.toNat) ∧ (a.toNat = 0xF4 → b.toNat ≤ 0x8F) then
      match r' with
      | [] => []
      | c :: r'' => if 0xF0 ≤ a.toNat ∧ isContinuation c then r'' else c :: r''
    else b :: r'

theorem afterBroken_suffix (a : UInt8) (r : List UInt8) : afterBroken a r <:+ r := by
  unfold afterBroken
  split
  · exact List.suffix_refl _
  · split
    · split
      · exact List.nil_suffix
      · split
        · exact (List.suffix_cons _ _).trans (List.suffix_cons _ _)
        · exact List.suffix_cons _ _
    · exact List.suffix_refl _

/-- Reads characters behind those in `seen`, and replaces what is none. -/
def lossyAfter (seen : List Char) (s : List UInt8) : List Char :=
  match s with
  | [] => seen.reverse
  | a :: r =>
    match front? (a :: r) with
    | none =>
      have := (afterBroken_suffix a r).length_le
      lossyAfter ('\uFFFD' :: seen) (afterBroken a r)
    | some ⟨c, rest, _⟩ => lossyAfter (c :: seen) rest
termination_by s.length
decreasing_by
  · simp only [List.length_cons]
    omega
  · assumption

/-- **`lossy`** -- the characters that `s` holds, with one replacement character for every run of
bytes that begins like a character and breaks off. -/
def lossy (s : List UInt8) : List Char :=
  lossyAfter [] s

/-- Reads characters behind those in `seen`, off bytes that are taken on trust. -/
def trustAfter (seen : List Char) : List UInt8 → List Char
  | [] => seen.reverse
  | a :: r =>
    if a.toNat < 0x80 then trustAfter (Char.ofNat a.toNat :: seen) r
    else if a.toNat < 0xE0 then
      match r with
      | b :: r => trustAfter (Char.ofNat (a.toNat % 32 * 64 + tail b) :: seen) r
      | [] => seen.reverse
    else if a.toNat < 0xF0 then
      match r with
      | b :: c :: r =>
        trustAfter (Char.ofNat ((a.toNat % 16 * 64 + tail b) * 64 + tail c) :: seen) r
      | _ => seen.reverse
    else
      match r with
      | b :: c :: d :: r =>
        trustAfter
          (Char.ofNat (((a.toNat % 8 * 64 + tail b) * 64 + tail c) * 64 + tail d) :: seen) r
      | _ => seen.reverse

/-- **`trust`** -- the characters of bytes that are known to be those of a text. How many bytes a
character has is taken from the first of them, and nothing is looked at besides the bits that they
carry; what comes of other bytes means nothing. -/
def trust (s : List UInt8) : List Char :=
  trustAfter [] s

/-! ## What is written is read back -/

@[simp] theorem encode_nil : encode [] = [] := rfl

@[simp] theorem encode_cons (c : Char) (cs : List Char) :
    encode (c :: cs) = String.utf8EncodeChar c ++ encode cs := by
  simp [encode]

theorem encode_append (cs ds : List Char) : encode (cs ++ ds) = encode cs ++ encode ds := by
  simp [encode]

theorem bytes_append (s t : String) : bytes (s ++ t) = bytes s ++ bytes t := by
  simp [bytes, encode_append]

/-- Characters stop at `U+10FFFF` and leave out the surrogates. -/
theorem toNat_bounds (c : Char) :
    c.toNat < 0x110000 ∧ ¬(0xD800 ≤ c.toNat ∧ c.toNat ≤ 0xDFFF) := by
  have h : UInt32.isValidChar c.val := c.valid
  have hc : c.toNat = c.val.toNat := rfl
  rcases h with h | ⟨h₁, h₂⟩ <;> omega

/-- The bytes of a character, by the length of their sequence. -/
theorem utf8EncodeChar_eq (c : Char) :
    String.utf8EncodeChar c =
      if c.toNat ≤ 0x7F then [UInt8.ofNat c.toNat]
      else if c.toNat ≤ 0x7FF then
        [UInt8.ofNat (c.toNat / 64 % 32 + 192), UInt8.ofNat (c.toNat % 64 + 128)]
      else if c.toNat ≤ 0xFFFF then
        [UInt8.ofNat (c.toNat / 4096 % 16 + 224), UInt8.ofNat (c.toNat / 64 % 64 + 128),
          UInt8.ofNat (c.toNat % 64 + 128)]
      else
        [UInt8.ofNat (c.toNat / 262144 % 8 + 240), UInt8.ofNat (c.toNat / 4096 % 64 + 128),
          UInt8.ofNat (c.toNat / 64 % 64 + 128), UInt8.ofNat (c.toNat % 64 + 128)] :=
  rfl

theorem toNat_ofNat {n : Nat} (h : n < 256) : (UInt8.ofNat n).toNat = n := by
  rw [UInt8.toNat_ofNat', Nat.mod_eq_of_lt h]

/-- A character in front is read off, whatever follows. -/
theorem front?_encode (c : Char) (rest : List UInt8) :
    (front? (String.utf8EncodeChar c ++ rest)).map (fun f => (f.char, f.rest))
      = some (c, rest) := by
  obtain ⟨hmax, hsur⟩ := toNat_bounds c
  have hc := Char.ofNat_toNat c
  rw [utf8EncodeChar_eq]
  by_cases h₁ : c.toNat ≤ 0x7F
  · rw [if_pos h₁]
    have e₀ := toNat_ofNat (show c.toNat < 256 by omega)
    simp only [List.cons_append, List.nil_append, front?, e₀,
      if_pos (show c.toNat < 0x80 by omega), Option.map_some, hc]
  rw [if_neg h₁]
  by_cases h₂ : c.toNat ≤ 0x7FF
  · rw [if_pos h₂]
    have e₀ := toNat_ofNat (show c.toNat / 64 % 32 + 192 < 256 by omega)
    have e₁ := toNat_ofNat (show c.toNat % 64 + 128 < 256 by omega)
    simp only [List.cons_append, List.nil_append, front?, tail, isContinuation, e₀, e₁]
    rw [if_neg (by omega), if_neg (by omega), if_pos (by omega), if_pos (by omega)]
    have value : (c.toNat / 64 % 32 + 192) % 32 * 64 + (c.toNat % 64 + 128) % 64 = c.toNat := by
      omega
    simp only [value, hc, Option.map_some]
  rw [if_neg h₂]
  by_cases h₃ : c.toNat ≤ 0xFFFF
  · rw [if_pos h₃]
    have e₀ := toNat_ofNat (show c.toNat / 4096 % 16 + 224 < 256 by omega)
    have e₁ := toNat_ofNat (show c.toNat / 64 % 64 + 128 < 256 by omega)
    have e₂ := toNat_ofNat (show c.toNat % 64 + 128 < 256 by omega)
    simp only [List.cons_append, List.nil_append, front?, tail, isContinuation, e₀, e₁, e₂]
    rw [if_neg (by omega), if_neg (by omega), if_neg (by omega), if_pos (by omega),
      if_pos (by omega)]
    have value : ((c.toNat / 4096 % 16 + 224) % 16 * 64 + (c.toNat / 64 % 64 + 128) % 64) * 64
        + (c.toNat % 64 + 128) % 64 = c.toNat := by
      omega
    simp only [value, hc, Option.map_some]
  rw [if_neg h₃]
  have e₀ := toNat_ofNat (show c.toNat / 262144 % 8 + 240 < 256 by omega)
  have e₁ := toNat_ofNat (show c.toNat / 4096 % 64 + 128 < 256 by omega)
  have e₂ := toNat_ofNat (show c.toNat / 64 % 64 + 128 < 256 by omega)
  have e₃ := toNat_ofNat (show c.toNat % 64 + 128 < 256 by omega)
  simp only [List.cons_append, List.nil_append, front?, tail, isContinuation, e₀, e₁, e₂, e₃]
  rw [if_neg (by omega), if_neg (by omega), if_neg (by omega), if_neg (by omega),
    if_pos (by omega), if_pos (by omega)]
  have value : (((c.toNat / 262144 % 8 + 240) % 8 * 64 + (c.toNat / 4096 % 64 + 128) % 64) * 64
      + (c.toNat / 64 % 64 + 128) % 64) * 64 + (c.toNat % 64 + 128) % 64 = c.toNat := by
    omega
  simp only [value, hc, Option.map_some]

theorem decodeAfter_encode (seen cs : List Char) :
    decodeAfter seen (encode cs) = .ok (seen.reverse ++ cs) := by
  induction cs generalizing seen with
  | nil => simp [decodeAfter]
  | cons c cs ih =>
    have h := front?_encode c (encode cs)
    rw [encode_cons]
    cases hb : String.utf8EncodeChar c ++ encode cs with
    | nil =>
      rw [hb] at h
      simp [front?] at h
    | cons a r =>
      rw [hb] at h
      unfold decodeAfter
      split
      · rename_i hn
        rw [hn] at h
        simp at h
      · rename_i x rest _ hx
        rw [hx] at h
        simp only [Option.map_some, Option.some.injEq, Prod.mk.injEq] at h
        obtain ⟨rfl, rfl⟩ := h
        rw [ih]
        simp

/-- **`decode_encode`** -- what was written is read back, and all of it. -/
theorem decode_encode (cs : List Char) : decode (encode cs) = .ok cs :=
  decodeAfter_encode [] cs

/-! ## What is read on trust, or with replacements -/

/-- A character that can be read off the front is the one that is there on trust. -/
theorem trustAfter_of_front? {seen : List Char} {s : List UInt8} {f : Front s}
    (h : front? s = some f) : trustAfter seen s = trustAfter (f.char :: seen) f.rest := by
  unfold front? at h
  split at h
  · cases h
  · rename_i a r
    rw [trustAfter.eq_def]
    dsimp only
    split at h
    · cases h
      rw [if_pos ‹_›]
    · rename_i hone
      rw [if_neg hone]
      split at h
      · cases h
      · split at h
        · rw [if_pos ‹_›]
          split at h
          · split at h
            · cases h
              rfl
            · cases h
          · cases h
        · rename_i htwo
          rw [if_neg htwo]
          split at h
          · rw [if_pos ‹_›]
            split at h
            · split at h
              · cases h
                rfl
              · cases h
            · cases h
          · rename_i hthree
            rw [if_neg hthree]
            split at h
            · split at h
              · split at h
                · cases h
                  rfl
                · cases h
              · cases h
            · cases h

theorem trustAfter_of_decodeAfter {seen cs : List Char} {s : List UInt8}
    (h : decodeAfter seen s = .ok cs) : trustAfter seen s = cs := by
  fun_induction decodeAfter seen s with
  | case1 seen => exact Except.ok.inj h
  | case2 => cases h
  | case3 seen a r c rest _ hfront ih => rw [trustAfter_of_front? hfront, ih h]

/-- **`trust_of_decode`** -- what can be decoded is decoded on trust. -/
theorem trust_of_decode {s : List UInt8} {cs : List Char} (h : decode s = .ok cs) :
    trust s = cs :=
  trustAfter_of_decodeAfter h

theorem lossyAfter_of_decodeAfter {seen cs : List Char} {s : List UInt8}
    (h : decodeAfter seen s = .ok cs) : lossyAfter seen s = cs := by
  fun_induction decodeAfter seen s with
  | case1 seen =>
    rw [lossyAfter]
    exact Except.ok.inj h
  | case2 => cases h
  | case3 seen a r c rest _ hfront ih =>
    rw [lossyAfter, hfront]
    exact ih h

/-- **`lossy_of_decode`** -- what can be decoded is read without a replacement. -/
theorem lossy_of_decode {s : List UInt8} {cs : List Char} (h : decode s = .ok cs) :
    lossy s = cs :=
  lossyAfter_of_decodeAfter h

end ChapterCheck.Utf8
