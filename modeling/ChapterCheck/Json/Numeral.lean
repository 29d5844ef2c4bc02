/-
# ChapterCheck.Json.Numeral -- numbers as they are written, and what they mean

A `Numeral` is a number as it stands in a text: sign, digits before and behind the point, exponent.
`Numeral.read` takes one off the front of the input; `Numeral.number?` says what it means.

A numeral of digits alone means an integer if that fits a signed or an unsigned word of 64 bits, and
`-0` does not; everything else means a binary64 number. Digits beyond the 64 bits of a significand
are dropped, and the significand is then scaled by powers of ten, each of them one rounded
operation. The result may thus miss the nearest binary64 number by a unit in the last place, and the
order of the operations is part of the format.
-/
import ChapterCheck.Json.Scan
import ChapterCheck.Json.Value

namespace ChapterCheck.Json

/-- The exponent of a numeral. -/
structure Exponent where
  negative : Bool
  digits : List Nat
  deriving DecidableEq, Repr

/-- A **`Numeral`** -- a number as it is written. `fraction` is empty where there is no point. -/
structure Numeral where
  negative : Bool
  whole : List Nat
  fraction : List Nat
  exponent : Option Exponent
  deriving DecidableEq, Repr

/-! ## Reading -/

/-- A decimal digit. -/
def isDigit (b : UInt8) : Bool :=
  0x30 ≤ b && b ≤ 0x39

/-- What a digit stands for. -/
def digitValue (b : UInt8) : Nat :=
  b.toNat - 0x30

/-- The digits that the input begins with. -/
def leadingDigits (s : List UInt8) : List Nat :=
  (s.takeWhile isDigit).map digitValue

/-- The input behind the digits that it begins with. -/
def afterDigits (s : List UInt8) : List UInt8 :=
  s.dropWhile isDigit

theorem length_afterDigits_le (s : List UInt8) : (afterDigits s).length ≤ s.length :=
  length_dropWhile_le isDigit s

/-- The minus sign of a number, if there is one. -/
def takeMinus : List UInt8 → Taken Bool
  | [] => ⟨false, []⟩
  | b :: r => if glyph b = '-' then ⟨true, r⟩ else ⟨false, b :: r⟩

/-- The digits before the point: at least one, and a zero in front stands alone. -/
def readWhole : Scan (List Nat)
  | [] => .error (.last .endInValue [])
  | b :: r =>
    if !isDigit b then .error (.last .invalidNumber r)
    else if b == 0x30 && (r.head?.any isDigit) then .error (.next .invalidNumber r)
    else if b == 0x30 then .ok ⟨[0], r⟩
    else .ok ⟨digitValue b :: leadingDigits r, afterDigits r⟩

/-- The point and the digits behind it, if there is a point: at least one. -/
def readFraction : Scan (List Nat)
  | [] => .ok ⟨[], []⟩
  | b :: r =>
    if glyph b = '.' then
      match r with
      | [] => .error (.next .endInValue [])
      | c :: r' =>
        if isDigit c then .ok ⟨leadingDigits (c :: r'), afterDigits (c :: r')⟩
        else .error (.next .invalidNumber (c :: r'))
    else .ok ⟨[], b :: r⟩

/-- The sign of an exponent, which may be left out. -/
def takeSign : List UInt8 → Taken Bool
  | [] => ⟨false, []⟩
  | b :: r =>
    if glyph b = '-' then ⟨true, r⟩ else if glyph b = '+' then ⟨false, r⟩ else ⟨false, b :: r⟩

/-- The exponent, if there is one: an `e`, a sign perhaps, at least one digit. -/
def readExponent : Scan (Option Exponent)
  | [] => .ok ⟨none, []⟩
  | b :: r =>
    if glyph b = 'e' ∨ glyph b = 'E' then
      match (takeSign r).rest with
      | [] => .error (.last .endInValue [])
      | c :: r' =>
        if isDigit c then
          .ok ⟨some ⟨(takeSign r).value, leadingDigits (c :: r')⟩, afterDigits (c :: r')⟩
        else .error (.last .invalidNumber r')
    else .ok ⟨none, b :: r⟩

theorem length_takeMinus_le (s : List UInt8) : (takeMinus s).rest.length ≤ s.length := by
  unfold takeMinus
  split
  · exact Nat.le_refl _
  · split
    · exact Nat.le_succ _
    · exact Nat.le_refl _

theorem length_takeSign_le (s : List UInt8) : (takeSign s).rest.length ≤ s.length := by
  unfold takeSign
  split
  · exact Nat.le_refl _
  · split
    · exact Nat.le_succ _
    · split
      · exact Nat.le_succ _
      · exact Nat.le_refl _

theorem length_readWhole_lt {s : List UInt8} {t : Taken (List Nat)} (h : readWhole s = .ok t) :
    t.rest.length < s.length := by
  unfold readWhole at h
  split at h
  · cases h
  · split at h
    · cases h
    · split at h
      · cases h
      · split at h
        · cases h
          exact Nat.lt_succ_self _
        · cases h
          exact Nat.lt_succ_of_le (length_afterDigits_le _)

theorem length_readFraction_le {s : List UInt8} {t : Taken (List Nat)}
    (h : readFraction s = .ok t) : t.rest.length ≤ s.length := by
  unfold readFraction at h
  split at h
  · cases h
    exact Nat.le_refl _
  · split at h
    · split at h
      · cases h
      · split at h
        · cases h
          exact Nat.le_succ_of_le (length_afterDigits_le _)
        · cases h
    · cases h
      exact Nat.le_refl _

theorem length_readExponent_le {s : List UInt8} {t : Taken (Option Exponent)}
    (h : readExponent s = .ok t) : t.rest.length ≤ s.length := by
  unfold readExponent at h
  split at h
  · cases h
    exact Nat.le_refl _
  · rename_i b r
    split at h
    · have hr := length_takeSign_le r
      split at h
      · cases h
      · rename_i c r' hc
        rw [hc] at hr
        split at h
        · cases h
          exact Nat.le_succ_of_le (Nat.le_trans (length_afterDigits_le _) hr)
        · cases h
    · cases h
      exact Nat.le_refl _

/-- **`Numeral.read`** -- takes a numeral off the front of the input. -/
def Numeral.read : Reader Numeral where
  scan s := do
    let minus := takeMinus s
    let whole ← readWhole minus.rest
    let fraction ← readFraction whole.rest
    let exponent ← readExponent fraction.rest
    return ⟨⟨minus.value, whole.value, fraction.value, exponent.value⟩, exponent.rest⟩
  shortens := by
    intro s t h
    obtain ⟨whole, hw, h⟩ := bind_eq_ok.mp h
    obtain ⟨fraction, hf, h⟩ := bind_eq_ok.mp h
    obtain ⟨exponent, he, h⟩ := bind_eq_ok.mp h
    cases h
    exact Nat.lt_of_le_of_lt
      (Nat.le_trans (length_readExponent_le he) (length_readFraction_le hf))
      (Nat.lt_of_lt_of_le (length_readWhole_lt hw) (length_takeMinus_le s))

/-! ## Meaning -/

/-- The largest significand. -/
def maxSignificand : Nat := Nat.pow 2 64 - 1

/-- **`takeWhole`** -- the significand of the digits before the point, and how many digits were
dropped: the first one that does not fit, and all behind it. -/
def takeWhole (significand : Nat) : List Nat → Nat × Nat
  | [] => (significand, 0)
  | d :: rest =>
    if significand * 10 + d ≤ maxSignificand then takeWhole (significand * 10 + d) rest
    else (significand, rest.length + 1)

/-- **`takeFraction`** -- goes on with the digits behind the point, and counts those that fit; the
first one that does not, and all behind it, are dropped. -/
def takeFraction (significand : Nat) : List Nat → Nat × Nat
  | [] => (significand, 0)
  | d :: rest =>
    if significand * 10 + d ≤ maxSignificand then
      let (total, taken) := takeFraction (significand * 10 + d) rest
      (total, taken + 1)
    else (significand, 0)

/-- The largest exponent that can be written. -/
def maxExponent : Nat := Nat.pow 2 31 - 1

/-- **`takeExponent`** -- the value of the digits of an exponent, or the number of digits that were
not looked at any more when it became too large. -/
def takeExponent (value : Nat) : List Nat → Except Nat Nat
  | [] => .ok value
  | d :: rest =>
    if value * 10 + d ≤ maxExponent then takeExponent (value * 10 + d) rest
    else .error rest.length

/-- A power of ten that binary64 has. -/
def powerOfTen (n : Nat) : Float :=
  Float.ofScientific 1 false n

/-- **`scale`** -- `x` times ten to a power, if it is finite. Powers beyond `308` are reached in
steps downward, which end when nothing is left of `x`. -/
def scale (x : Float) (power : Int) : Option Float :=
  if power.natAbs ≤ 308 then
    if 0 ≤ power then
      let y := x * powerOfTen power.natAbs
      if y.isInf then none else some y
    else some (x / powerOfTen power.natAbs)
  else if x == 0 then some x
  else if 0 ≤ power then none
  else scale (x / powerOfTen 308) (power + 308)
termination_by power.natAbs
decreasing_by omega

/-- What keeps a numeral from meaning a number. -/
inductive Excess where
  /-- The exponent cannot be written; so many of its digits were not looked at. -/
  | exponent (unseen : Nat)
  /-- No finite number is that large. -/
  | magnitude
  deriving DecidableEq, Repr

/-- A decimal with the sign of its numeral. -/
def signed (negative : Bool) (x : Float) : Number :=
  .decimal (if negative then -x else x)

/-- **`Numeral.integer?`** -- the integer that a numeral of digits alone means, if it is one. -/
def Numeral.integer? (n : Numeral) : Option Int :=
  match n.fraction, n.exponent, takeWhole 0 n.whole with
  | [], none, (significand, 0) =>
    if !n.negative then some significand
    else if 0 < significand ∧ significand ≤ Nat.pow 2 63 then some (-significand)
    else none
  | _, _, _ => none

/-- The decimal that a numeral means. An exponent that cannot be written makes the number zero if it
is negative or there is nothing to scale. -/
def Numeral.decimal? (n : Numeral) : Except Excess Float :=
  let (whole, dropped) := takeWhole 0 n.whole
  let (significand, taken) := takeFraction whole n.fraction
  let shift : Int := dropped - taken
  let finish (power : Int) : Except Excess Float :=
    match scale (Float.ofNat significand) power with
    | some x => .ok x
    | none => .error .magnitude
  match n.exponent with
  | none => finish shift
  | some e =>
    match takeExponent 0 e.digits with
    | .ok value => finish (if e.negative then shift - value else shift + value)
    | .error unseen =>
      if significand = 0 ∨ e.negative then .ok 0 else .error (.exponent unseen)

/-- **`Numeral.number?`** -- what a numeral means. -/
def Numeral.number? (n : Numeral) : Except Excess Number :=
  match n.integer? with
  | some i => .ok (.integer i)
  | none => do return signed n.negative (← n.decimal?)

/-- **`Number.read`** -- takes a number off the front of the input. -/
def Number.read : Reader Number where
  scan s := do
    let t ← Numeral.read.scan s
    match t.value.number? with
    | .ok n => return ⟨n, t.rest⟩
    | .error .magnitude => throw (.looked .numberOutOfRange t.rest)
    | .error (.exponent unseen) => throw ⟨.numberOutOfRange, t.rest.length + unseen, .last⟩
  shortens := by
    intro s t h
    obtain ⟨numeral, hn, h⟩ := bind_eq_ok.mp h
    split at h
    · cases h
      exact Numeral.read.shortens hn
    · cases h
    · cases h

end ChapterCheck.Json
