/-
# ChapterCheck.Proofs.Encoded -- where the bytes of a text may be cut

Bytes are `Encoded` if some characters are written so, which is just where `decode` reads them
(`encoded_iff_decode`). A character begins with a byte that continues none and goes on with bytes
that do. So there is nothing to know of a text but its next byte to see whether it may be cut in
front of it: both parts are texts again unless that byte continues a character
(`encoded_append_iff`).
-/
import ChapterCheck.Text.Utf8

namespace ChapterCheck.Utf8

/-- Bytes that are **`Encoded`** -- some characters are written so. -/
def Encoded (s : List UInt8) : Prop :=
  ∃ cs, encode cs = s

theorem encoded_encode (cs : List Char) : Encoded (encode cs) :=
  ⟨cs, rfl⟩

theorem encoded_nil : Encoded [] :=
  encoded_encode []

theorem encoded_utf8EncodeChar (c : Char) : Encoded (String.utf8EncodeChar c) :=
  ⟨[c], by simp⟩

theorem Encoded.append {x y : List UInt8} (hx : Encoded x) (hy : Encoded y) :
    Encoded (x ++ y) := by
  obtain ⟨cs, rfl⟩ := hx
  obtain ⟨ds, rfl⟩ := hy
  exact ⟨cs ++ ds, encode_append cs ds⟩

/-! ## Cuts -/

/-- The first byte of a character continues none, and all others do. -/
theorem utf8EncodeChar_eq_cons (c : Char) :
    ∃ a r, String.utf8EncodeChar c = a :: r ∧ ¬isContinuation a ∧ ∀ b ∈ r, isContinuation b := by
  obtain ⟨hmax, -⟩ := toNat_bounds c
  have hbyte (n : Nat) (h : n < 64) : isContinuation (UInt8.ofNat (n + 128)) := by
    rw [isContinuation, toNat_ofNat (by omega)]
    omega
  have hlead {n : Nat} (h : n < 256) (hn : n < 0x80 ∨ 0xC0 ≤ n) :
      ¬isContinuation (UInt8.ofNat n) := by
    rw [isContinuation, toNat_ofNat h]
    omega
  rw [utf8EncodeChar_eq]
  split
  · exact ⟨_, _, rfl, hlead (by omega) (by omega), List.forall_mem_nil _⟩
  · split
    · refine ⟨_, _, rfl, hlead (by omega) (by omega), ?_⟩
      simp only [List.forall_mem_singleton]
      exact hbyte _ (by omega)
    · split
      · refine ⟨_, _, rfl, hlead (by omega) (by omega), ?_⟩
        simp only [List.forall_mem_cons]
        exact ⟨hbyte _ (by omega), hbyte _ (by omega), List.forall_mem_nil _⟩
      · refine ⟨_, _, rfl, hlead (by omega) (by omega), ?_⟩
        simp only [List.forall_mem_cons]
        exact ⟨hbyte _ (by omega), hbyte _ (by omega), hbyte _ (by omega), List.forall_mem_nil _⟩

/-- **`encoded_append_iff`** -- cut in front of a byte that does not continue a character, bytes are
a text just where both parts are. -/
theorem encoded_append_iff {x y : List UInt8} (h : ∀ b ∈ y.head?, ¬isContinuation b) :
    Encoded (x ++ y) ↔ Encoded x ∧ Encoded y := by
  refine ⟨?_, fun ⟨hx, hy⟩ => hx.append hy⟩
  rintro ⟨cs, hcs⟩
  -- Character by character, until the cut is reached; it is not inside of one.
  induction cs generalizing x with
  | nil =>
    obtain ⟨rfl, rfl⟩ := List.append_eq_nil_iff.mp hcs.symm
    exact ⟨encoded_nil, encoded_nil⟩
  | cons c cs ih =>
    obtain ⟨a, r, hchar, -, hr⟩ := utf8EncodeChar_eq_cons c
    cases x with
    | nil => exact ⟨encoded_nil, c :: cs, hcs⟩
    | cons a' x =>
      rw [encode_cons] at hcs
      rcases List.append_eq_append_iff.mp hcs with ⟨x', hx, hrest⟩ | ⟨r', hc, hy⟩
      · obtain ⟨hx', hy⟩ := ih hrest
        rw [hx]
        exact ⟨(encoded_utf8EncodeChar c).append hx', hy⟩
      · cases r' with
        | nil =>
          rw [List.append_nil] at hc
          rw [← hc]
          exact ⟨encoded_utf8EncodeChar c, cs, hy.symm⟩
        | cons b r' =>
          rw [hchar, List.cons_append] at hc
          have hb : b ∈ r := by
            rw [(List.cons.inj hc).2]
            simp
          exact absurd (hr b hb) (h b (by rw [hy]; rfl))

/-- A character at the front makes no difference. -/
theorem encoded_utf8EncodeChar_append_iff {c : Char} {y : List UInt8} :
    Encoded (String.utf8EncodeChar c ++ y) ↔ Encoded y := by
  refine ⟨?_, (encoded_utf8EncodeChar c).append⟩
  rintro ⟨ds, hds⟩
  have hfront := front?_encode c y
  cases ds with
  | nil =>
    rw [← hds] at hfront
    simp [front?] at hfront
  | cons d ds =>
    rw [← hds, encode_cons, front?_encode] at hfront
    simp only [Option.some.injEq, Prod.mk.injEq] at hfront
    exact ⟨ds, hfront.2⟩

/-- Nor does one further in, but for the cut that it allows. -/
theorem encoded_append_utf8EncodeChar_iff {c : Char} {x y : List UInt8} :
    Encoded (x ++ (String.utf8EncodeChar c ++ y)) ↔ Encoded x ∧ Encoded y := by
  obtain ⟨a, r, hchar, ha, -⟩ := utf8EncodeChar_eq_cons c
  have hhead : ∀ b ∈ (String.utf8EncodeChar c ++ y).head?, ¬isContinuation b := by
    rw [hchar]
    rintro b ⟨⟩
    exact ha
  rw [encoded_append_iff hhead, encoded_utf8EncodeChar_append_iff]

theorem toNat_charOfNat_of_valid {n : Nat} (h : n.isValidChar) : (Char.ofNat n).toNat = n := by
  rw [Char.ofNat, dif_pos h]
  rfl

theorem ofNat_eq_of_toNat {b : UInt8} {n : Nat} (h : n = b.toNat) : UInt8.ofNat n = b := by
  rw [h, UInt8.ofNat_toNat]

/-! ## What is read was written

Each sequence that `front?` admits is the one that its character is written with; the bounds on its
second byte are those of the characters with so many bytes. -/

theorem utf8EncodeChar_one {a : UInt8} (ha : a.toNat < 0x80) :
    String.utf8EncodeChar (Char.ofNat a.toNat) = [a] := by
  rw [utf8EncodeChar_eq, toNat_charOfNat_of_valid (.inl (by omega)), if_pos (by omega),
    ofNat_eq_of_toNat rfl]

theorem utf8EncodeChar_two {a b : UInt8} (ha : 0xC2 ≤ a.toNat ∧ a.toNat < 0xE0)
    (hb : isContinuation b) :
    String.utf8EncodeChar (Char.ofNat (a.toNat % 32 * 64 + tail b)) = [a, b] := by
  unfold isContinuation at hb
  unfold tail
  rw [utf8EncodeChar_eq, toNat_charOfNat_of_valid (.inl (by omega)), if_neg (by omega),
    if_pos (by omega), ofNat_eq_of_toNat (b := a) (by omega), ofNat_eq_of_toNat (b := b) (by omega)]

theorem utf8EncodeChar_three {a b c : UInt8} (ha : 0xE0 ≤ a.toNat ∧ a.toNat < 0xF0)
    (hb : isContinuation b ∧ isContinuation c ∧ (a.toNat = 0xE0 → 0xA0 ≤ b.toNat)
      ∧ (a.toNat = 0xED → b.toNat ≤ 0x9F)) :
    String.utf8EncodeChar (Char.ofNat ((a.toNat % 16 * 64 + tail b) * 64 + tail c))
      = [a, b, c] := by
  unfold isContinuation at hb
  unfold tail
  have hvalid : ((a.toNat % 16 * 64 + b.toNat % 64) * 64 + c.toNat % 64).isValidChar := by
    unfold Nat.isValidChar
    omega
  rw [utf8EncodeChar_eq, toNat_charOfNat_of_valid hvalid, if_neg (by omega), if_neg (by omega),
    if_pos (by omega), ofNat_eq_of_toNat (b := a) (by omega), ofNat_eq_of_toNat (b := b) (by omega),
    ofNat_eq_of_toNat (b := c) (by omega)]

theorem utf8EncodeChar_four {a b c d : UInt8} (ha : 0xF0 ≤ a.toNat ∧ a.toNat < 0xF5)
    (hb : isContinuation b ∧ isContinuation c ∧ isContinuation d
      ∧ (a.toNat = 0xF0 → 0x90 ≤ b.toNat) ∧ (a.toNat = 0xF4 → b.toNat ≤ 0x8F)) :
    String.utf8EncodeChar
        (Char.ofNat (((a.toNat % 8 * 64 + tail b) * 64 + tail c) * 64 + tail d))
      = [a, b, c, d] := by
  unfold isContinuation at hb
  unfold tail
  have hvalid : (((a.toNat % 8 * 64 + b.toNat % 64) * 64 + c.toNat % 64) * 64
      + d.toNat % 64).isValidChar := by
    unfold Nat.isValidChar
    omega
  rw [utf8EncodeChar_eq, toNat_charOfNat_of_valid hvalid, if_neg (by omega), if_neg (by omega),
    if_neg (by omega), ofNat_eq_of_toNat (b := a) (by omega), ofNat_eq_of_toNat (b := b) (by omega),
    ofNat_eq_of_toNat (b := c) (by omega), ofNat_eq_of_toNat (b := d) (by omega)]

/-- The character that is read off the front is the one that stands there. -/
theorem utf8EncodeChar_front {s : List UInt8} {f : Front s} (h : front? s = some f) :
    String.utf8EncodeChar f.char ++ f.rest = s := by
  unfold front? at h
  split at h
  · cases h
  · rename_i a r
    split at h
    · cases h
      rw [utf8EncodeChar_one ‹_›, List.singleton_append]
    · split at h
      · cases h
      · split at h
        · split at h
          · split at h
            · cases h
              rw [utf8EncodeChar_two ⟨by omega, ‹_›⟩ ‹_›]
              rfl
            · cases h
          · cases h
        · split at h
          · split at h
            · split at h
              · cases h
                rw [utf8EncodeChar_three ⟨by omega, ‹_›⟩ ‹_›]
                rfl
              · cases h
            · cases h
          · split at h
            · split at h
              · split at h
                · cases h
                  rw [utf8EncodeChar_four ⟨by omega, ‹_›⟩ ‹_›]
                  rfl
                · cases h
              · cases h
            · cases h

theorem encode_of_decodeAfter {seen cs : List Char} {s : List UInt8}
    (h : decodeAfter seen s = .ok cs) : encode cs = encode seen.reverse ++ s := by
  fun_induction decodeAfter seen s with
  | case1 seen =>
    cases h
    rw [List.append_nil]
  | case2 => cases h
  | case3 seen a r c rest shorter hfront ih =>
    have hread := utf8EncodeChar_front hfront
    rw [ih h, List.reverse_cons, encode_append, List.append_assoc, ← hread, encode_cons, encode_nil,
      List.append_nil]

/-- **`encoded_iff_decode`** -- bytes are a text just where they are read as one. -/
theorem encoded_iff_decode {s : List UInt8} : Encoded s ↔ ∃ cs, decode s = .ok cs := by
  constructor
  · rintro ⟨cs, rfl⟩
    exact ⟨cs, decode_encode cs⟩
  · rintro ⟨cs, h⟩
    exact ⟨cs, encode_of_decodeAfter h⟩

/-- The bytes of a text, and no others, are encoded. -/
theorem encoded_iff_bytes {s : List UInt8} : Encoded s ↔ ∃ text, bytes text = s := by
  constructor
  · rintro ⟨cs, rfl⟩
    exact ⟨String.ofList cs, by rw [bytes, String.toList_ofList]⟩
  · rintro ⟨text, rfl⟩
    exact encoded_encode text.toList

end ChapterCheck.Utf8
