/-
# ChapterCheck.Proofs.Numerals -- which texts of a number mean a natural number

An integer that is not negative has one text: its digits, with no zero in front, no sign, no point
and no exponent. `Number.read_text` says so of everything that `Number.read` takes, in both
directions, and `Number.read_repr` says that such a text is read.

Where the digits end is seen from the bytes. A sign, a fraction and an exponent may be left out, and
each of them begins with a byte that is no digit (`Optional`). So a text of digits alone has none of
them, and is the whole part of its numeral.
-/
import Mathlib.Data.List.TakeWhile
import ChapterCheck.Json.Numeral
import ChapterCheck.Json.Quoted.RoundTrip
import ChapterCheck.Proofs.Rendering

namespace ChapterCheck.Json

/-! ## Digits as bytes -/

/-- The byte of a digit. -/
def digitByte (d : Nat) : UInt8 :=
  UInt8.ofNat (0x30 + d)

theorem digitByte_spec :
    ∀ d < 10, isDigit (digitByte d) = true ∧ digitValue (digitByte d) = d
      ∧ String.utf8EncodeChar (Nat.digitChar d) = [digitByte d]
      ∧ (digitByte d = 0x30 → d = 0) := by
  decide

theorem exists_digitByte {b : UInt8} (h : isDigit b = true) : ∃ d < 10, b = digitByte d := by
  obtain ⟨hlow, hhigh⟩ := Bool.and_eq_true_iff.mp h
  have hlow : 0x30 ≤ b.toNat := UInt8.le_iff_toNat_le.mp (of_decide_eq_true hlow)
  have hhigh : b.toNat ≤ 0x39 := UInt8.le_iff_toNat_le.mp (of_decide_eq_true hhigh)
  refine ⟨b.toNat - 0x30, by omega, UInt8.toNat_inj.mp ?_⟩
  rw [digitByte, Utf8.toNat_ofNat (by omega)]
  omega

/-- The number that goes on with digits behind `n`. -/
def goOn (n : Nat) (digits : List Nat) : Nat :=
  digits.foldl (fun n d => n * 10 + d) n

theorem le_goOn (digits : List Nat) : ∀ n, n ≤ goOn n digits := by
  induction digits with
  | nil => exact Nat.le_refl
  | cons d digits ih => exact fun n => Nat.le_trans (by omega) (ih (n * 10 + d))

/-! ## The digits of a number -/

theorem bytes_repr_of_lt {n : Nat} (h : n < 10) : Utf8.bytes (Nat.repr n) = [digitByte n] := by
  rw [Utf8.bytes, Nat.toList_repr, Nat.toDigits_of_lt_base h, Utf8.encode, List.flatMap_singleton]
  exact (digitByte_spec n h).2.2.1

theorem bytes_repr_append {n d : Nat} (hn : 0 < n) (hd : d < 10) :
    Utf8.bytes (Nat.repr (10 * n + d)) = Utf8.bytes (Nat.repr n) ++ [digitByte d] := by
  rw [← bytes_repr_of_lt hd]
  simp only [Utf8.bytes, Nat.toList_repr]
  rw [← Nat.toDigits_append_toDigits (by decide) hn hd, Utf8.encode_append]

/-- What holds of one digit, and of a number with a digit more, holds of all numbers. -/
theorem digits_induction {motive : Nat → Prop} (one : ∀ n < 10, motive n)
    (more : ∀ n d, 0 < n → d < 10 → motive n → motive (10 * n + d)) (n : Nat) : motive n := by
  induction n using Nat.strongRecOn with
  | ind n ih =>
    by_cases hn : n < 10
    · exact one n hn
    · have hmore := more (n / 10) (n % 10) (by omega) (by omega) (ih (n / 10) (by omega))
      rwa [Nat.div_add_mod] at hmore

/-- **`bytes_repr_spec`** -- the text of a number has digits only, they mean the number, and no
zero is in front of others. -/
theorem bytes_repr_spec (n : Nat) :
    (∀ b ∈ Utf8.bytes (Nat.repr n), isDigit b = true)
      ∧ goOn 0 ((Utf8.bytes (Nat.repr n)).map digitValue) = n
      ∧ ∃ b r, Utf8.bytes (Nat.repr n) = b :: r ∧ (b = 0x30 → n = 0 ∧ r = []) := by
  induction n using digits_induction with
  | one n hn =>
    obtain ⟨hdigit, hvalue, -, hzero⟩ := digitByte_spec n hn
    rw [bytes_repr_of_lt hn]
    refine ⟨List.forall_mem_singleton.mpr hdigit, ?_, digitByte n, [], rfl, fun h => ⟨hzero h, rfl⟩⟩
    rw [List.map_singleton, hvalue, goOn, List.foldl_cons, List.foldl_nil, Nat.zero_mul,
      Nat.zero_add]
  | more n d hn hd ih =>
    obtain ⟨hdigits, hmeans, b, r, hbytes, hzero⟩ := ih
    obtain ⟨hdigit, hvalue, -⟩ := digitByte_spec d hd
    rw [bytes_repr_append hn hd]
    refine ⟨?_, ?_, b, r ++ [digitByte d], by rw [hbytes, List.cons_append], fun h => ?_⟩
    · exact List.forall_mem_append.mpr ⟨hdigits, List.forall_mem_singleton.mpr hdigit⟩
    · rw [goOn] at hmeans
      rw [List.map_append, List.map_singleton, goOn, List.foldl_append, hmeans, hvalue,
        List.foldl_cons, List.foldl_nil, Nat.mul_comm]
    · exact absurd (hzero h).1 (Nat.ne_of_gt hn)

theorem exists_bytes_repr_eq_cons (n : Nat) :
    ∃ b r, Utf8.bytes (Nat.repr n) = b :: r ∧ isDigit b = true := by
  obtain ⟨hdigits, -, b, r, hbytes, -⟩ := bytes_repr_spec n
  exact ⟨b, r, hbytes, hdigits b (hbytes ▸ List.mem_cons_self)⟩

theorem bytes_repr_injective {m n : Nat} (h : Utf8.bytes (Nat.repr m) = Utf8.bytes (Nat.repr n)) :
    m = n := by
  rw [← (bytes_repr_spec m).2.1, h, (bytes_repr_spec n).2.1]

/-- Digits behind a number that is not zero go on with its text. -/
theorem bytes_repr_goOn_of_pos {digits : List UInt8} (hdigits : ∀ b ∈ digits, isDigit b = true) :
    ∀ {n : Nat}, 0 < n →
    Utf8.bytes (Nat.repr (goOn n (digits.map digitValue))) = Utf8.bytes (Nat.repr n) ++ digits := by
  induction digits with
  | nil => exact fun _ => (List.append_nil _).symm
  | cons b digits ih =>
    intro n hn
    rw [List.forall_mem_cons] at hdigits
    obtain ⟨d, hd, rfl⟩ := exists_digitByte hdigits.1
    obtain ⟨-, hvalue, -⟩ := digitByte_spec d hd
    have hstep := ih hdigits.2 (n := n * 10 + d) (by omega)
    rw [Nat.mul_comm, bytes_repr_append hn hd, List.append_assoc] at hstep
    rw [List.map_cons, hvalue]
    rw [Nat.mul_comm] at hstep
    exact hstep

/-- **`bytes_repr_goOn`** -- digits are the text of what they mean, if no zero is in front of
others. -/
theorem bytes_repr_goOn {digits : List UInt8} (hne : digits ≠ [])
    (hdigits : ∀ b ∈ digits, isDigit b = true)
    (hzero : digits.head? = some 0x30 → digits = [0x30]) :
    Utf8.bytes (Nat.repr (goOn 0 (digits.map digitValue))) = digits := by
  obtain ⟨b, r, rfl⟩ := List.exists_cons_of_ne_nil hne
  rw [List.forall_mem_cons] at hdigits
  obtain ⟨d, hd, rfl⟩ := exists_digitByte hdigits.1
  obtain ⟨-, hvalue, -⟩ := digitByte_spec d hd
  have hfirst : goOn 0 ((digitByte d :: r).map digitValue) = goOn d (r.map digitValue) := by
    rw [List.map_cons, hvalue, goOn, List.foldl_cons, Nat.zero_mul, Nat.zero_add, goOn]
  rw [hfirst]
  -- Only a zero in front could be lost, and it has nothing behind it.
  rcases Nat.eq_zero_or_pos d with rfl | hpos
  · obtain ⟨-, rfl⟩ := List.cons.inj (hzero rfl)
    exact bytes_repr_of_lt hd
  · rw [bytes_repr_goOn_of_pos hdigits.2 hpos, bytes_repr_of_lt hd, List.singleton_append]

/-! ## Parts of a numeral that may be left out -/

/-- The text of an **`Optional`** part -- nothing where the part is not `present`; else it begins
with a byte that is no digit. -/
inductive Optional (present : Prop) : (text : List UInt8) → Prop
  | absent : ¬present → Optional present []
  | taken {b : UInt8} {r : List UInt8} : present → isDigit b = false → Optional present (b :: r)

/-- Where there are digits alone, nothing optional is. -/
theorem Optional.not_present {present : Prop} {text : List UInt8} (h : Optional present text)
    (hdigits : ∀ b ∈ text, isDigit b = true) : ¬present := by
  cases h with
  | absent hno => exact hno
  | taken _ hb => exact absurd (hdigits _ List.mem_cons_self) (Bool.eq_false_iff.mp hb)

theorem Optional.eq_nil {present : Prop} {text : List UInt8} (h : Optional present text)
    (hno : ¬present) : text = [] := by
  cases h with
  | absent => rfl
  | taken hpresent => exact absurd hpresent hno

theorem isDigit_eq_false_of_glyph {b : UInt8} {c : Char} (h : glyph b = c)
    (hc : c.toNat < 0x30 ∨ 0x39 < c.toNat) : isDigit b = false := by
  refine Bool.eq_false_iff.mpr fun hdigit => ?_
  obtain ⟨d, hd, rfl⟩ := exists_digitByte hdigit
  rw [glyph_eq_iff, digitByte, Utf8.toNat_ofNat (by omega)] at h
  omega

theorem takeMinus_optional (s : List UInt8) :
    ∃ text, s = text ++ (takeMinus s).rest ∧ Optional ((takeMinus s).value = true) text := by
  unfold takeMinus
  split
  · exact ⟨[], rfl, .absent Bool.false_ne_true⟩
  · split
    · rename_i b r hminus
      exact ⟨[b], rfl, .taken rfl (isDigit_eq_false_of_glyph hminus (by decide))⟩
    · exact ⟨[], rfl, .absent Bool.false_ne_true⟩

theorem takeWhile_append_afterDigits (s : List UInt8) :
    s.takeWhile isDigit ++ afterDigits s = s :=
  List.takeWhile_append_dropWhile

theorem leadingDigits_ne_nil {b : UInt8} (h : isDigit b = true) (r : List UInt8) :
    leadingDigits (b :: r) ≠ [] := by
  rw [leadingDigits, List.takeWhile_cons_of_pos h]
  exact List.cons_ne_nil _ _

theorem readFraction_optional {s : List UInt8} {t : Taken (List Nat)}
    (h : readFraction s = .ok t) :
    ∃ text, s = text ++ t.rest ∧ Optional (t.value ≠ []) text := by
  unfold readFraction at h
  split at h
  · cases h
    exact ⟨[], rfl, .absent (absurd rfl)⟩
  · split at h
    · rename_i b r hpoint
      split at h
      · cases h
      · split at h
        · cases h
          rename_i c r' hdigit
          refine ⟨b :: (c :: r').takeWhile isDigit, ?_, ?_⟩
          · rw [List.cons_append, takeWhile_append_afterDigits]
          · exact .taken (leadingDigits_ne_nil hdigit r')
              (isDigit_eq_false_of_glyph hpoint (by decide))
        · cases h
    · cases h
      exact ⟨[], rfl, .absent (absurd rfl)⟩

theorem exists_append_takeSign (s : List UInt8) : ∃ sign, s = sign ++ (takeSign s).rest := by
  unfold takeSign
  split
  · exact ⟨[], rfl⟩
  · split
    · exact ⟨[_], rfl⟩
    · split
      · exact ⟨[_], rfl⟩
      · exact ⟨[], rfl⟩

theorem readExponent_optional {s : List UInt8} {t : Taken (Option Exponent)}
    (h : readExponent s = .ok t) :
    ∃ text, s = text ++ t.rest ∧ Optional (t.value ≠ none) text := by
  unfold readExponent at h
  split at h
  · cases h
    exact ⟨[], rfl, .absent (absurd rfl)⟩
  · rename_i b r
    split at h
    · rename_i hletter
      have hb : isDigit b = false := hletter.elim
        (isDigit_eq_false_of_glyph · (by decide)) (isDigit_eq_false_of_glyph · (by decide))
      obtain ⟨sign, hsign⟩ := exists_append_takeSign r
      split at h
      · cases h
      · rename_i c r' hrest
        split at h
        · cases h
          refine ⟨b :: (sign ++ (c :: r').takeWhile isDigit), ?_, ?_⟩
          · rw [List.cons_append, List.append_assoc, takeWhile_append_afterDigits, ← hrest,
              ← hsign]
          · exact .taken (Option.some_ne_none _) hb
        · cases h
    · cases h
      exact ⟨[], rfl, .absent (absurd rfl)⟩

/-! ## The whole part -/

/-- The whole part of a numeral is digits, with no zero in front of others. -/
theorem readWhole_text {s : List UInt8} {t : Taken (List Nat)} (h : readWhole s = .ok t) :
    ∃ digits, s = digits ++ t.rest ∧ t.value = digits.map digitValue ∧ digits ≠ []
      ∧ (∀ b ∈ digits, isDigit b = true) ∧ (digits.head? = some 0x30 → digits = [0x30]) := by
  unfold readWhole at h
  split at h
  · cases h
  · rename_i b r
    split at h
    · cases h
    · rename_i hdigit
      have hdigit : isDigit b = true := by simpa using hdigit
      split at h
      · cases h
      · split at h
        · rename_i hzero
          cases h
          obtain rfl := eq_of_beq hzero
          exact ⟨[0x30], rfl, rfl, List.cons_ne_nil _ _, List.forall_mem_singleton.mpr hdigit,
            fun _ => rfl⟩
        · rename_i hzero
          cases h
          refine ⟨b :: r.takeWhile isDigit, ?_, rfl, List.cons_ne_nil _ _, ?_, fun hhead => ?_⟩
          · rw [List.cons_append, takeWhile_append_afterDigits]
          · exact List.forall_mem_cons.mpr ⟨hdigit, fun c hc => List.mem_takeWhile_imp hc⟩
          · exact absurd (beq_iff_eq.mpr (Option.some.inj hhead)) hzero

/-! ## Numerals of digits alone -/

/-- A **`Whole`** numeral -- digits alone. -/
def Numeral.Whole (n : Numeral) : Prop :=
  n.negative = false ∧ n.fraction = [] ∧ n.exponent = none

/-- The text of a numeral has digits only where the numeral is whole; they are its digits then, with
no zero in front of others. -/
theorem Numeral.read_text {s : List UInt8} {t : Taken Numeral} (h : Numeral.read.scan s = .ok t) :
    ∃ text, s = text ++ t.rest ∧ ((∀ b ∈ text, isDigit b = true) ↔ t.value.Whole)
      ∧ (t.value.Whole → t.value.whole = text.map digitValue
        ∧ Utf8.bytes (Nat.repr (goOn 0 t.value.whole)) = text) := by
  obtain ⟨whole, hwhole, h⟩ := bind_eq_ok.mp h
  obtain ⟨fraction, hfraction, h⟩ := bind_eq_ok.mp h
  obtain ⟨exponent, hexponent, h⟩ := bind_eq_ok.mp h
  cases h
  obtain ⟨sign, hs, hsign⟩ := takeMinus_optional s
  obtain ⟨digits, hw, hvalue, hne, hdigits, hzero⟩ := readWhole_text hwhole
  obtain ⟨point, hf, hpoint⟩ := readFraction_optional hfraction
  obtain ⟨power, he, hpower⟩ := readExponent_optional hexponent
  have htext : s = (sign ++ digits ++ point ++ power) ++ exponent.rest := by
    rw [hs, hw, hf, he]
    simp only [List.append_assoc]
  have hplain : Numeral.Whole ⟨(takeMinus s).value, whole.value, fraction.value, exponent.value⟩ →
      sign ++ digits ++ point ++ power = digits := by
    rintro ⟨hn, hfr, hex⟩
    rw [hsign.eq_nil (Bool.eq_false_iff.mp hn), hpoint.eq_nil (absurd hfr),
      hpower.eq_nil (absurd hex), List.nil_append, List.append_nil, List.append_nil]
  -- Each part but the whole one brings a byte that is no digit, so digits alone leave them out.
  refine ⟨_, htext, ⟨fun hall => ?_, fun hmeans => ?_⟩, fun hmeans => ?_⟩
  · simp only [List.forall_mem_append] at hall
    obtain ⟨⟨⟨hall, -⟩, hallpoint⟩, hallpower⟩ := hall
    exact ⟨Bool.eq_false_iff.mpr (hsign.not_present hall),
      not_ne_iff.mp (hpoint.not_present hallpoint), not_ne_iff.mp (hpower.not_present hallpower)⟩
  · rw [hplain hmeans]
    exact hdigits
  · rw [hplain hmeans, hvalue]
    exact ⟨rfl, bytes_repr_goOn hne hdigits hzero⟩

/-! ## Meaning -/

/-- No digit is dropped where all of them fit. -/
theorem takeWhole_eq_iff {digits : List Nat} {significand n : Nat} (h : n ≤ maxSignificand) :
    takeWhole n digits = (significand, 0)
      ↔ goOn n digits = significand ∧ significand ≤ maxSignificand := by
  induction digits generalizing n with
  | nil =>
    rw [takeWhole, goOn, List.foldl_nil, Prod.mk.injEq, eq_self, and_true]
    exact ⟨fun heq => ⟨heq, heq ▸ h⟩, And.left⟩
  | cons d digits ih =>
    rw [takeWhole]
    split
    · rename_i hfits
      exact ih hfits
    · rename_i hout
      refine ⟨fun heq => absurd (congrArg Prod.snd heq) (Nat.succ_ne_zero _), ?_⟩
      rintro ⟨rfl, hfits⟩
      exact absurd (Nat.le_trans (le_goOn digits _) hfits) hout

/-- **`integer?_eq_some_iff`** -- a natural number is meant by digits alone, if it fits. -/
theorem Numeral.integer?_eq_some_iff {m : Numeral} {n : Nat} :
    m.integer? = some (n : Int) ↔ m.Whole ∧ goOn 0 m.whole = n ∧ n < UInt64.size := by
  have hmax : n ≤ maxSignificand ↔ n < UInt64.size := by
    have hpow : maxSignificand + 1 = UInt64.size := by decide
    omega
  have htake : takeWhole 0 m.whole = (n, 0) ↔ goOn 0 m.whole = n ∧ n ≤ maxSignificand :=
    takeWhole_eq_iff (Nat.zero_le _)
  rw [hmax] at htake
  rw [← htake]
  obtain ⟨negative, whole, fraction, exponent⟩ := m
  constructor
  · intro h
    unfold integer? at h
    split at h
    · rename_i significand hfraction hexponent htaken
      split at h
      · rename_i hsign
        obtain rfl : significand = n := Int.ofNat_inj.mp (Option.some.inj h)
        exact ⟨⟨by simpa using hsign, hfraction, hexponent⟩, htaken⟩
      · split at h
        · have := Option.some.inj h
          omega
        · cases h
    · cases h
  · rintro ⟨⟨hn, hf, he⟩, htaken⟩
    cases hn
    cases hf
    cases he
    dsimp only at htaken
    simp only [integer?, htaken, Bool.not_false, if_true]

/-- What a numeral means is a natural number only where it means it as an integer. -/
theorem Numeral.number?_integer_iff {m : Numeral} {number : Number}
    (h : m.number? = .ok number) (n : Nat) :
    number = .integer n ↔ m.integer? = some (n : Int) := by
  unfold number? at h
  split at h
  · rename_i i hi
    cases h
    rw [hi, Number.integer.injEq, Option.some.injEq]
  · rename_i hnone
    obtain ⟨x, -, hx⟩ := bind_eq_ok.mp h
    cases hx
    rw [hnone]
    refine iff_of_false ?_ ?_
    · intro heq
      cases heq
    · intro heq
      cases heq

/-- **`Number.read_text`** -- a number is read as a natural one just where its text is the one of
that number. -/
theorem Number.read_text {s : List UInt8} {t : Taken Number} (h : Number.read.scan s = .ok t) :
    ∃ text, s = text ++ t.rest ∧ ∀ n : Nat,
      t.value = .integer n ↔ text = Utf8.bytes (Nat.repr n) ∧ n < UInt64.size := by
  obtain ⟨m, hm, h⟩ := bind_eq_ok.mp h
  obtain ⟨text, htext, hdigits, hwhole⟩ := Numeral.read_text hm
  have hmeans (n : Nat) : m.value.integer? = some (n : Int)
      ↔ text = Utf8.bytes (Nat.repr n) ∧ n < UInt64.size := by
    rw [Numeral.integer?_eq_some_iff]
    constructor
    · rintro ⟨hplain, rfl, hfits⟩
      exact ⟨(hwhole hplain).2.symm, hfits⟩
    · rintro ⟨hrepr, hfits⟩
      obtain ⟨hall, hvalue, -⟩ := bytes_repr_spec n
      rw [← hrepr] at hall hvalue
      have hplain := hdigits.mp hall
      exact ⟨hplain, by rw [(hwhole hplain).1, hvalue], hfits⟩
  split at h
  · rename_i number hnumber
    cases h
    exact ⟨text, htext, fun n => (Numeral.number?_integer_iff hnumber n).trans (hmeans n)⟩
  · cases h
  · cases h

/-! ## Reading a natural number -/

/-- What can stand behind a number -- no byte that would go on with it. -/
def Ends (rest : List UInt8) : Prop :=
  ∀ b ∈ rest.head?, isDigit b = false ∧ glyph b ∉ ['.', 'e', 'E']

theorem readFraction_of_ends {rest : List UInt8} (h : Ends rest) :
    readFraction rest = .ok ⟨[], rest⟩ := by
  cases rest with
  | nil => rfl
  | cons b r =>
    have hpoint : glyph b ≠ '.' := fun heq => (h b rfl).2 (by rw [heq]; decide)
    simp only [readFraction, if_neg hpoint]

theorem readExponent_of_ends {rest : List UInt8} (h : Ends rest) :
    readExponent rest = .ok ⟨none, rest⟩ := by
  cases rest with
  | nil => rfl
  | cons b r =>
    have hletter : ¬(glyph b = 'e' ∨ glyph b = 'E') := by
      rintro (heq | heq) <;> exact (h b rfl).2 (by rw [heq]; decide)
    rw [readExponent, if_neg hletter]

theorem readWhole_repr (n : Nat) {rest : List UInt8} (h : Ends rest) :
    readWhole (Utf8.bytes (Nat.repr n) ++ rest)
      = .ok ⟨(Utf8.bytes (Nat.repr n)).map digitValue, rest⟩ := by
  obtain ⟨hdigits, -, b, r, hbytes, hzero⟩ := bytes_repr_spec n
  rw [hbytes] at hdigits ⊢
  rw [List.forall_mem_cons] at hdigits
  obtain ⟨hb, hr⟩ := hdigits
  have hrest : (rest.head?.any isDigit) = false := by
    cases rest with
    | nil => rfl
    | cons c rest => exact (h c rfl).1
  rw [List.cons_append, readWhole]
  by_cases hb0 : b = 0x30
  · obtain ⟨-, rfl⟩ := hzero hb0
    subst hb0
    simp only [hb, List.nil_append, hrest]
    rfl
  · have hspan : rest.takeWhile isDigit = [] ∧ rest.dropWhile isDigit = rest := by
      cases rest with
      | nil => exact ⟨rfl, rfl⟩
      | cons c rest =>
        have hc : ¬isDigit c = true := Bool.eq_false_iff.mp (h c rfl).1
        exact ⟨List.takeWhile_cons_of_neg hc, List.dropWhile_cons_of_neg hc⟩
    have hbeq : (b == 0x30) = false := beq_false_of_ne hb0
    simp only [hb, hbeq, Bool.not_true, Bool.false_and, Bool.false_eq_true, if_false,
      leadingDigits, afterDigits, List.takeWhile_append_of_pos hr, List.dropWhile_append_of_pos hr,
      hspan.1, hspan.2, List.append_nil, List.map_cons]

/-- **`Number.read_repr`** -- the text of a natural number is read as that number. -/
theorem Number.read_repr {n : Nat} (hn : n < UInt64.size) {rest : List UInt8} (h : Ends rest) :
    Number.read.scan (Utf8.bytes (Nat.repr n) ++ rest) = .ok ⟨.integer n, rest⟩ := by
  have hminus : takeMinus (Utf8.bytes (Nat.repr n) ++ rest)
      = ⟨false, Utf8.bytes (Nat.repr n) ++ rest⟩ := by
    obtain ⟨b, r, hbytes, hb⟩ := exists_bytes_repr_eq_cons n
    have hsign : glyph b ≠ '-' := fun heq =>
      Bool.eq_false_iff.mp (isDigit_eq_false_of_glyph heq (by decide)) hb
    rw [hbytes, List.cons_append, takeMinus, if_neg hsign]
  have hnumeral : Numeral.read.scan (Utf8.bytes (Nat.repr n) ++ rest)
      = .ok ⟨⟨false, (Utf8.bytes (Nat.repr n)).map digitValue, [], none⟩, rest⟩ := by
    simp only [Numeral.read, hminus, readWhole_repr n h, readFraction_of_ends h,
      readExponent_of_ends h, bind, Except.bind]
    rfl
  have hinteger := Numeral.integer?_eq_some_iff.mpr
    ⟨(⟨rfl, rfl, rfl⟩ : Numeral.Whole ⟨false, (Utf8.bytes (Nat.repr n)).map digitValue, [], none⟩),
      (bytes_repr_spec n).2.1, hn⟩
  simp only [Number.read, hnumeral, bind, Except.bind, Numeral.number?, hinteger]
  rfl

end ChapterCheck.Json
