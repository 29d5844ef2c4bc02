/-
# ChapterCheck.Proofs.Clean -- readers leave a text where they were given one

Bytes need not be those of a text. Where a reader looks at bytes one by one it takes ASCII bytes
only, each of which is a character; other bytes are taken as they come between quotation marks, and
there a stream is read only if all of them can be read as characters in the end. So a reader of a
stream leaves a text where it was given one, and only then (`Reader.Clean`), and what is read from a
stream as a document are the bytes of a text (`Value.clean_ofBytes`).

Of a text it never tells that something is no Unicode, and never that it had to look at the byte
behind, but where a number is out of range (`Fault.Usual`).
-/
import ChapterCheck.Json.Quoted.RoundTrip
import ChapterCheck.Json.Reader
import ChapterCheck.Proofs.Encoded

namespace ChapterCheck.Json

open Utf8

/-! ## What is left of a text -/

/-- An input **`Cuts`** to a rest of it -- the one is a text just where the other is. -/
def Cuts (s rest : List UInt8) : Prop :=
  Encoded s ↔ Encoded rest

theorem Cuts.refl (s : List UInt8) : Cuts s s :=
  Iff.rfl

theorem Cuts.trans {s r rest : List UInt8} (h : Cuts s r) (hr : Cuts r rest) : Cuts s rest :=
  Iff.trans h hr

theorem cuts_cons {b : UInt8} (h : b.toNat < 0x80) (r : List UInt8) : Cuts (b :: r) r := by
  have hchar := utf8EncodeChar_one h
  show Encoded ([b] ++ r) ↔ _
  rw [← hchar]
  exact encoded_utf8EncodeChar_append_iff

theorem cuts_dropWhile {p : UInt8 → Bool} (h : ∀ b, p b = true → b.toNat < 0x80) :
    ∀ s : List UInt8, Cuts s (s.dropWhile p)
  | [] => .refl []
  | b :: r => by
    rw [List.dropWhile_cons]
    split
    · exact (cuts_cons (h b ‹_›) r).trans (cuts_dropWhile h r)
    · exact .refl _

theorem cuts_skipBlanks (s : List UInt8) : Cuts s (skipBlanks s) := by
  refine cuts_dropWhile (fun b hb => ?_) s
  simp only [isBlank, Bool.or_eq_true, beq_iff_eq] at hb
  rcases hb with ((rfl | rfl) | rfl) | rfl <;> decide

theorem cuts_of_skipBlanks {s t : List UInt8} (h : skipBlanks s = t) : Cuts s t :=
  h ▸ cuts_skipBlanks s

theorem toNat_lt_of_glyph {b : UInt8} {c : Char} (h : glyph b = c) (hc : c.toNat < 0x80) :
    b.toNat < 0x80 := by
  rw [glyph_eq_iff] at h
  omega

theorem cuts_glyph {b : UInt8} {c : Char} (h : glyph b = c) (hc : c.toNat < 0x80)
    (r : List UInt8) : Cuts (b :: r) r :=
  cuts_cons (toNat_lt_of_glyph h hc) r

theorem toNat_lt_of_isDigit {b : UInt8} (h : isDigit b = true) : b.toNat < 0x80 := by
  simp only [isDigit, Bool.and_eq_true, decide_eq_true_eq, UInt8.le_iff_toNat_le] at h
  have hlast : (0x39 : UInt8).toNat = 0x39 := rfl
  omega

theorem cuts_afterDigits (s : List UInt8) : Cuts s (afterDigits s) :=
  cuts_dropWhile (fun _ => toNat_lt_of_isDigit) s

/-! ## Results -/

/-- A **`Usual`** fault -- it is not that something is no Unicode, nor that it took a look at the
next byte to see it, but for a number out of range. -/
def Fault.Usual (fault : Fault) : Prop :=
  match fault.cause, fault.mark with
  | .invalidUnicode, _ => False
  | .numberOutOfRange, _ => True
  | _, .looked => False
  | _, _ => True

/-- A **`Clean`** result -- the input cuts to what is left, and a fault in a text is a usual one. -/
structure Clean {α : Type} (s : List UInt8) (rest : α → List UInt8) (result : Except Fault α) :
    Prop where
  cuts : ∀ {a}, result = .ok a → Cuts s (rest a)
  usual : ∀ {fault}, result = .error fault → Encoded s → fault.Usual

section Results

variable {α β : Type} {s s' : List UInt8} {rest : α → List UInt8} {rest' : β → List UInt8}

theorem clean_ok {a : α} (h : Cuts s (rest a)) : Clean s rest (.ok a) where
  cuts := by
    rintro _ ⟨⟩
    exact h
  usual := nofun

theorem clean_refused {fault : Fault} (h : Encoded s → fault.Usual) :
    Clean s rest (.error fault) where
  cuts := nofun
  usual := by
    rintro _ ⟨⟩
    exact h

theorem clean_error {fault : Fault} (h : fault.Usual) : Clean s rest (.error fault) :=
  clean_refused fun _ => h

theorem Clean.behind {x : Except Fault α} (h : Clean s' rest x) (hs : Cuts s s') :
    Clean s rest x where
  cuts ha := hs.trans (h.cuts ha)
  usual hfault henc := h.usual hfault (hs.mp henc)

theorem Clean.bind {x : Except Fault α} {f : α → Except Fault β} (hx : Clean s rest x)
    (hf : ∀ a, x = .ok a → Clean (rest a) rest' (f a)) : Clean s rest' (x >>= f) := by
  cases x with
  | ok a => exact (hf a rfl).behind (hx.cuts rfl)
  | error fault => exact clean_refused (hx.usual rfl)

theorem Clean.map {x : Except Fault α} (hx : Clean s rest x) {f : α → β}
    (hf : ∀ a, rest' (f a) = rest a) : Clean s rest' (x.map f) := by
  cases x with
  | ok a => exact clean_ok (hf a ▸ hx.cuts rfl)
  | error fault => exact clean_refused (hx.usual rfl)

end Results

/-- A **`Clean`** reader -- all its results are. -/
def Reader.Clean {α : Type} (reader : Reader α) : Prop :=
  ∀ s, Json.Clean s Taken.rest (reader.scan s)

/-! ## Words and separators -/

theorem clean_spelled : ∀ {word : List Char}, (∀ c ∈ word, c.toNat < 0x80) →
    ∀ s, Clean s id (spelled word s)
  | [], _, s => clean_ok (.refl s)
  | _ :: _, _, [] => clean_error trivial
  | c :: word, h, b :: r => by
    rw [List.forall_mem_cons] at h
    rw [spelled]
    split
    · exact (clean_spelled h.2 r).behind (cuts_glyph ‹_› h.1 r)
    · exact clean_error trivial

theorem clean_nextElement (first : Bool) (s : List UInt8) :
    Clean s Ahead.rest (nextElement first s) := by
  unfold nextElement
  split
  · exact clean_error trivial
  · rename_i b r hb
    have hs := cuts_of_skipBlanks hb
    split
    · exact clean_ok (hs.trans (cuts_glyph ‹_› (by decide) r))
    · split
      · exact clean_ok hs
      · split
        · rename_i hcomma
          have hr := hs.trans (cuts_glyph hcomma (by decide) r)
          split
          · exact clean_error trivial
          · split
            · exact clean_error trivial
            · exact clean_ok (hr.trans (cuts_of_skipBlanks ‹_›))
        · exact clean_error trivial

theorem clean_nextMember (first : Bool) (s : List UInt8) :
    Clean s Ahead.rest (nextMember first s) := by
  unfold nextMember
  split
  · exact clean_error trivial
  · rename_i b r hb
    have hs := cuts_of_skipBlanks hb
    split
    · exact clean_ok (hs.trans (cuts_glyph ‹_› (by decide) r))
    · split
      · split
        · exact clean_ok (hs.trans (cuts_glyph ‹_› (by decide) r))
        · exact clean_error trivial
      · split
        · rename_i hcomma
          have hr := hs.trans (cuts_glyph hcomma (by decide) r)
          split
          · exact clean_error trivial
          · rename_i c r' hc
            split
            · exact clean_ok ((hr.trans (cuts_of_skipBlanks hc)).trans
                (cuts_glyph ‹_› (by decide) r'))
            · split
              · exact clean_error trivial
              · exact clean_error trivial
        · exact clean_error trivial

theorem clean_colon (s : List UInt8) : Clean s id (colon s) := by
  unfold colon
  split
  · exact clean_error trivial
  · rename_i b r hb
    split
    · exact clean_ok ((cuts_of_skipBlanks hb).trans (cuts_glyph ‹_› (by decide) r))
    · exact clean_error trivial

/-! ## Numbers -/

theorem cuts_takeMinus (s : List UInt8) : Cuts s (takeMinus s).rest := by
  unfold takeMinus
  split
  · exact .refl []
  · split
    · exact cuts_glyph ‹_› (by decide) _
    · exact .refl _

theorem cuts_takeSign (s : List UInt8) : Cuts s (takeSign s).rest := by
  unfold takeSign
  split
  · exact .refl []
  · split
    · exact cuts_glyph ‹_› (by decide) _
    · split
      · exact cuts_glyph ‹_› (by decide) _
      · exact .refl _

theorem clean_readWhole (s : List UInt8) : Clean s Taken.rest (readWhole s) := by
  unfold readWhole
  split
  · exact clean_error trivial
  · rename_i b r
    split
    · exact clean_error trivial
    · rename_i hdigit
      have hb : isDigit b = true := by simpa using hdigit
      have hr := cuts_cons (toNat_lt_of_isDigit hb) r
      split
      · exact clean_error trivial
      · split
        · exact clean_ok hr
        · exact clean_ok (hr.trans (cuts_afterDigits r))

theorem clean_readFraction (s : List UInt8) : Clean s Taken.rest (readFraction s) := by
  unfold readFraction
  split
  · exact clean_ok (.refl [])
  · rename_i b r
    split
    · rename_i hpoint
      have hr := cuts_glyph hpoint (by decide) r
      split
      · exact clean_error trivial
      · split
        · exact clean_ok (hr.trans (cuts_afterDigits _))
        · exact clean_error trivial
    · exact clean_ok (.refl _)

theorem clean_readExponent (s : List UInt8) : Clean s Taken.rest (readExponent s) := by
  unfold readExponent
  split
  · exact clean_ok (.refl [])
  · rename_i b r
    split
    · rename_i hletter
      have hr : Cuts (b :: r) (takeSign r).rest := by
        rcases hletter with hletter | hletter
        · exact (cuts_glyph hletter (by decide) r).trans (cuts_takeSign r)
        · exact (cuts_glyph hletter (by decide) r).trans (cuts_takeSign r)
      split
      · exact clean_error trivial
      · rename_i c r' hc
        rw [hc] at hr
        split
        · exact clean_ok (hr.trans (cuts_afterDigits _))
        · exact clean_error trivial
    · exact clean_ok (.refl _)

theorem Numeral.clean_read : Numeral.read.Clean := by
  intro s
  apply Json.Clean.bind ((clean_readWhole _).behind (cuts_takeMinus s))
  intro whole _
  apply Json.Clean.bind (clean_readFraction _)
  intro fraction _
  apply Json.Clean.bind (clean_readExponent _)
  intro exponent _
  exact clean_ok (.refl _)

/-- A number out of range is found when the byte behind it has been looked at. -/
theorem Number.clean_read : Number.read.Clean := by
  intro s
  apply Json.Clean.bind (Numeral.clean_read s)
  intro numeral _
  split
  · exact clean_ok (.refl _)
  · exact clean_error trivial
  · exact clean_error trivial

/-! ## Texts -/

theorem toNat_lt_of_hexValue? {b : UInt8} {n : Nat} (h : hexValue? b = some n) :
    b.toNat < 0x80 := by
  have hlast : (0x39 : UInt8).toNat = 0x39 ∧ (0x46 : UInt8).toNat = 0x46
      ∧ (0x66 : UInt8).toNat = 0x66 := ⟨rfl, rfl, rfl⟩
  simp only [hexValue?, Bool.and_eq_true, decide_eq_true_eq, UInt8.le_iff_toNat_le] at h
  split at h
  · omega
  · split at h
    · omega
    · split at h
      · omega
      · cases h

theorem clean_readHex : readHex.Clean := by
  intro s
  unfold readHex
  dsimp only
  split
  · rename_i a b c d r
    split
    · rename_i n hn
      simp only [hexNumber?, Option.bind_eq_bind, Option.bind_eq_some_iff] at hn
      obtain ⟨_, ha, _, hb, _, hc, _, hd, -⟩ := hn
      apply clean_ok
      apply (cuts_cons (toNat_lt_of_hexValue? ha) _).trans
      apply (cuts_cons (toNat_lt_of_hexValue? hb) _).trans
      apply (cuts_cons (toNat_lt_of_hexValue? hc) _).trans
      exact cuts_cons (toNat_lt_of_hexValue? hd) r
    · exact clean_error trivial
  · exact clean_error trivial

theorem clean_readTrailing : readTrailing.Clean := by
  intro s
  unfold readTrailing
  dsimp only
  split
  · exact clean_error trivial
  · rename_i b r
    split
    · exact clean_error trivial
    · rename_i hb
      split
      · exact clean_error trivial
      · rename_i c r
        split
        · exact clean_error trivial
        · rename_i hc
          have hr := (cuts_glyph (Decidable.not_not.mp hb) (by decide) (c :: r)).trans
            (cuts_glyph (Decidable.not_not.mp hc) (by decide) r)
          apply Json.Clean.bind ((clean_readHex r).behind hr)
          intro hex _
          split
          · exact clean_ok (.refl _)
          · exact clean_error trivial

theorem shortEscape?_spec {b byte : UInt8} (h : shortEscape? b = some byte) :
    b.toNat < 0x80 ∧ byte.toNat < 0x80 := by
  unfold shortEscape? at h
  split at h <;> cases h <;> rename_i hb <;> rw [glyph_eq_iff] at hb <;> rw [hb] <;> decide

theorem clean_readEscape : readEscape.Clean := by
  intro s
  unfold readEscape
  dsimp only
  split
  · exact clean_error trivial
  · rename_i b r
    split
    · rename_i byte hbyte
      exact clean_ok (cuts_cons (shortEscape?_spec hbyte).1 r)
    · split
      · exact clean_error trivial
      · rename_i hu
        have hr := cuts_glyph (Decidable.not_not.mp hu) (by decide) r
        apply Json.Clean.bind ((clean_readHex r).behind hr)
        intro hex _
        split
        · exact clean_error trivial
        · split
          · apply Json.Clean.bind (clean_readTrailing _)
            intro trailing _
            exact clean_ok (.refl _)
          · exact clean_ok (.refl _)

/-- An escape stands for one character. -/
theorem exists_readEscape_value {s : List UInt8} {t : Taken (List UInt8)}
    (h : readEscape.scan s = .ok t) : ∃ c, t.value = String.utf8EncodeChar c := by
  unfold readEscape at h
  dsimp only at h
  split at h
  · cases h
  · split at h
    · rename_i byte hbyte
      cases h
      exact ⟨_, (utf8EncodeChar_one (shortEscape?_spec hbyte).2).symm⟩
    · split at h
      · cases h
      · obtain ⟨hex, -, h⟩ := bind_eq_ok.mp h
        split at h
        · cases h
        · split at h
          · obtain ⟨trailing, -, h⟩ := bind_eq_ok.mp h
            rw [← Except.ok.inj h, Taken.map]
            exact ⟨Char.ofNat (joined hex.value trailing.value), by rw [charBytes]⟩
          · rw [← Except.ok.inj h, Taken.map]
            exact ⟨Char.ofNat hex.value, by rw [charBytes]⟩

/-- What was seen between the marks and what is ahead are a text together, just where what is read
and what is left are texts on their own. It is the border between the two that moves. -/
theorem readBody_spec (seen s : List UInt8) :
    (∀ {t}, readBody seen s = .ok t →
      (Encoded (seen.reverse ++ s) ↔ Encoded t.value ∧ Encoded t.rest))
    ∧ ∀ {fault}, readBody seen s = .error fault → Encoded (seen.reverse ++ s) → fault.Usual := by
  have hmark {b : UInt8} {c : Char} (hb : glyph b = c) (hc : c.toNat < 0x80)
      (x y : List UInt8) : Encoded (x ++ b :: y) ↔ Encoded x ∧ Encoded y := by
    rw [← List.singleton_append, ← utf8EncodeChar_one (toNat_lt_of_glyph hb hc)]
    exact encoded_append_utf8EncodeChar_iff
  fun_induction readBody seen s with
  | case1 =>
    refine ⟨by rintro _ ⟨⟩, ?_⟩
    rintro _ ⟨⟩ -
    trivial
  | case2 seen b r hquote =>
    refine ⟨?_, by rintro _ ⟨⟩⟩
    rintro t ⟨⟩
    exact hmark hquote (by decide) _ _
  | case3 seen b r _ hslash fault hescape =>
    refine ⟨by rintro _ ⟨⟩, ?_⟩
    rintro _ ⟨⟩ henc
    exact (clean_readEscape r).usual hescape ((hmark hslash (by decide) _ _).mp henc).2
  | case4 seen b r _ hslash e hescape _ ih =>
    obtain ⟨c, hc⟩ := exists_readEscape_value hescape
    have hcuts := (clean_readEscape r).cuts hescape
    have hborder : Encoded (seen.reverse ++ b :: r)
        ↔ Encoded ((e.value.reverse ++ seen).reverse ++ e.rest) := by
      rw [List.reverse_append, List.reverse_reverse, List.append_assoc, hc,
        encoded_append_utf8EncodeChar_iff, hmark hslash (by decide)]
      exact and_congr_right fun _ => hcuts
    rw [hborder]
    simpa using ih
  | case5 =>
    refine ⟨by rintro _ ⟨⟩, ?_⟩
    rintro _ ⟨⟩ -
    trivial
  | case6 seen b r _ _ _ ih =>
    rw [List.reverse_cons, List.append_assoc, List.singleton_append] at ih
    exact ih

/-- The bytes between the marks of a text are those of a text, so they are read as one. -/
theorem clean_readQuoted : readQuoted.Clean := by
  intro s
  obtain ⟨hok, herror⟩ := readBody_spec [] s
  cases hbody : readBody [] s with
  | error fault =>
    have hscan : readQuoted.scan s = .error fault := by
      simp only [readQuoted, hbody, bind, Except.bind]
    rw [hscan]
    exact clean_refused (herror hbody)
  | ok t =>
    have hs : Encoded s ↔ Encoded t.value ∧ Encoded t.rest := hok hbody
    cases hdecode : Utf8.decode t.value with
    | ok cs =>
      have hscan : readQuoted.scan s = .ok ⟨String.ofList cs, t.rest⟩ := by
        simp only [readQuoted, hbody, hdecode, bind, Except.bind]
        rfl
      have hvalue := encoded_iff_decode.mpr ⟨cs, hdecode⟩
      rw [hscan]
      exact clean_ok (hs.trans (and_iff_right hvalue))
    | error unreadable =>
      have hscan : readQuoted.scan s
          = .error ⟨.invalidUnicode, t.rest.length, .back unreadable.length⟩ := by
        simp only [readQuoted, hbody, hdecode, bind, Except.bind]
        rfl
      rw [hscan]
      refine clean_refused fun henc => ?_
      obtain ⟨cs, hcs⟩ := encoded_iff_decode.mp (hs.mp henc).1
      rw [hcs] at hdecode
      cases hdecode

/-! ## Documents -/

theorem clean_readElements {α : Type} {element : Reader α} (h : element.Clean) (first : Bool)
    (seen : List α) (s : List UInt8) :
    Clean s Taken.rest (readElements element first seen s) := by
  fun_induction readElements element first seen s with
  | case1 first seen s fault hnext =>
    exact clean_refused ((clean_nextElement first s).usual hnext)
  | case2 first seen s rest hnext => exact clean_ok ((clean_nextElement first s).cuts hnext)
  | case3 first seen s rest hnext fault helement =>
    have hs := (clean_nextElement first s).cuts hnext
    exact clean_refused fun henc => (h rest).usual helement (hs.mp henc)
  | case4 first seen s rest hnext t helement _ _ ih =>
    have hs := (clean_nextElement first s).cuts hnext
    exact ih.behind (hs.trans ((h rest).cuts helement))

theorem clean_readMembers {α : Type} {member : List (String × α) → String → Reader α}
    (h : ∀ seen key, (member seen key).Clean) (first : Bool) (seen : List (String × α))
    (s : List UInt8) : Clean s Taken.rest (readMembers .stream member first seen s) := by
  fun_induction readMembers .stream member first seen s with
  | case1 first seen s fault hnext =>
    exact clean_refused ((clean_nextMember first s).usual hnext)
  | case2 first seen s rest hnext => exact clean_ok ((clean_nextMember first s).cuts hnext)
  | case3 first seen s rest hnext fault hkey =>
    have hs := (clean_nextMember first s).cuts hnext
    exact clean_refused fun henc => (clean_readQuoted rest).usual hkey (hs.mp henc)
  | case4 first seen s rest hnext key hkey fault hmember =>
    have hs := (clean_nextMember first s).cuts hnext
    have hkeycut := (clean_readQuoted rest).cuts hkey
    exact clean_refused fun henc => (h _ _ _).usual hmember ((hs.trans hkeycut).mp henc)
  | case5 first seen s rest hnext key hkey t hmember _ _ _ ih =>
    have hs := (clean_nextMember first s).cuts hnext
    have hkeycut := (clean_readQuoted rest).cuts hkey
    exact ih.behind ((hs.trans hkeycut).trans ((h _ _ _).cuts hmember))

theorem clean_afterColon {α : Type} {value : Reader α} (h : value.Clean) :
    (afterColon value).Clean :=
  fun s => Json.Clean.bind (clean_colon s) fun rest _ => h rest

theorem toNat_lt_of_lead {b : UInt8} {lead : Lead} (h : lead? b = some lead) :
    b.toNat < 0x80 := by
  unfold lead? at h
  split at h
  case h_8 =>
    split at h
    · exact toNat_lt_of_isDigit ‹_›
    · cases h
  all_goals exact toNat_lt_of_glyph ‹_› (by decide)

theorem toNat_lt_of_word {b : UInt8} {letters : List Char} {value : Value}
    (h : lead? b = some (.word letters value)) : ∀ c ∈ letters, c.toNat < 0x80 := by
  unfold lead? at h
  split at h
  case h_8 => split at h <;> cases h
  all_goals cases h <;> simp

theorem clean_readWith {inner : Option (Reader Value)} (h : ∀ part ∈ inner, part.Clean) :
    (readWith .stream inner).Clean := by
  intro s
  unfold readWith
  dsimp only
  split
  · exact clean_error trivial
  · rename_i b r hb
    have hs := cuts_of_skipBlanks hb
    have hlead {lead : Lead} (hlead : lead? b = some lead) : Cuts s r :=
      hs.trans (cuts_cons (toNat_lt_of_lead hlead) r)
    split
    · exact clean_error trivial
    · rename_i hword
      have hletters := toNat_lt_of_word hword
      exact ((clean_spelled hletters r).behind (hlead hword)).map fun _ => rfl
    · exact ((Number.clean_read _).behind hs).map fun _ => rfl
    · exact ((clean_readQuoted r).behind (hlead ‹_›)).map fun _ => rfl
    · exact clean_error trivial
    · exact clean_error trivial
    · rename_i part hlist
      exact ((clean_readElements (h part rfl) _ _ r).behind (hlead hlist)).map fun _ => rfl
    · rename_i part hobject
      have hmember := clean_afterColon (h part rfl)
      exact ((clean_readMembers (fun _ _ => hmember) _ _ r).behind (hlead hobject)).map
        fun _ => rfl

/-- By induction on the room: the parts of a value are read with less of it. -/
theorem clean_readValue : ∀ room, (readValue .stream room).Clean
  | 0 => clean_readWith nofun
  | room + 1 => clean_readWith fun _ hpart => Option.some.inj hpart ▸ clean_readValue room

/-- **`clean_ofBytes`** -- what is read as a document are the bytes of a text, and where a text is
refused as a document, the fault is a usual one. -/
theorem Value.clean_ofBytes (input : List UInt8) : Clean input (fun _ => []) (ofBytes input) := by
  apply Json.Clean.bind (clean_readValue maxNesting input)
  intro taken _
  split
  · exact clean_ok (cuts_of_skipBlanks ‹_›)
  · exact clean_error trivial

end ChapterCheck.Json
