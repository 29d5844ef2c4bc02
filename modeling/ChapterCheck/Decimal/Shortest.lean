/-
# ChapterCheck.Decimal.Shortest -- the fewest digits that read back

A finite binary64 number is `mantissa * 2 ^ exponent`, and the reals that are nearer to it than to
its neighbours form an interval: every decimal in there reads back as the same number. `shortest`
looks for a decimal in the interval on ever finer grids, those of one digit, two digits, and so on
up to seventeen, and takes the one nearest to the number on the first grid that has any.

Only the two points of a grid on either side of the number need a look: if a point of the grid lies
in the interval then so does one of these two. All of it is exact arithmetic on natural numbers.
-/

namespace ChapterCheck.Decimal

/-! ## The interval of a number -/

/-- The **`Rounding`** interval of a positive number: its ends and the number itself, as fractions
over a common denominator. The ends belong to it exactly when `closed`. -/
structure Rounding where
  low : Nat
  value : Nat
  high : Nat
  unit : Nat
  closed : Bool

/-- **`Rounding.ofBits`** -- the interval of the number with these bits, its sign left out. The
neighbours are half a unit in the last place away, but a quarter below a power of two, where the
grid of the numbers gets finer. An end reads back as the number whose mantissa is even. -/
def Rounding.ofBits (bits : UInt64) : Rounding :=
  let biased : Nat := bits.toNat / Nat.pow 2 52 % Nat.pow 2 11
  let fraction : Nat := bits.toNat % Nat.pow 2 52
  let mantissa : Nat := if biased = 0 then fraction else fraction + Nat.pow 2 52
  let quarters : Int := (if biased = 0 then 1 else (biased : Int)) - 1077
  let below := if fraction = 0 && 1 < biased then 1 else 2
  let factor := Nat.pow 2 quarters.toNat
  { low := (4 * mantissa - below) * factor
    value := 4 * mantissa * factor
    high := (4 * mantissa + 2) * factor
    unit := Nat.pow 2 (-quarters).toNat
    closed := mantissa % 2 = 0 }

/-- Whether the fraction `num / den` lies in the interval. -/
def Rounding.contains (r : Rounding) (num den : Nat) : Bool :=
  if r.closed then r.low * den ≤ num * r.unit && num * r.unit ≤ r.high * den
  else r.low * den < num * r.unit && num * r.unit < r.high * den

/-! ## Points of a grid -/

/-- The power of ten at or below `num / den`, as its exponent. -/
def magnitude (num den : Nat) : Int :=
  if den ≤ num then ((Nat.toDigits 10 (num / den)).length : Int) - 1
  else
    let places := (Nat.toDigits 10 (den / num)).length
    if den ≤ num * Nat.pow 10 (places - 1) then 1 - (places : Int) else -(places : Int)

/-- **`Rounding.onGrid?`** -- the multiple of `10 ^ scale` in the interval that is nearest to the
number, if there is one; of two equally near ones, the even multiple. -/
def Rounding.onGrid? (r : Rounding) (scale : Int) : Option Nat :=
  let up := Nat.pow 10 (-scale).toNat
  let down := Nat.pow 10 scale.toNat
  let below := r.value * up / (r.unit * down)
  let above := below + 1
  let leftOver := r.value * up - below * (r.unit * down)
  let missing := above * (r.unit * down) - r.value * up
  match r.contains (below * down) up, r.contains (above * down) up with
  | true, true =>
    if leftOver < missing then some below
    else if missing < leftOver then some above
    else if below % 2 = 0 then some below else some above
  | true, false => some below
  | false, true => some above
  | false, false => none

/-! ## The result -/

/-- Significant **`Digits`**: `d.ddd * 10 ^ exponent`, the first digit not zero (unless the number
is zero) and no zero at the end. -/
structure Digits where
  digits : List Char
  exponent : Int

/-- The digits of `n * 10 ^ scale`. -/
def Digits.ofNat (n : Nat) (scale : Int) : Digits :=
  let all := Nat.toDigits 10 n
  { digits := (all.reverse.dropWhile (· == '0')).reverse
    exponent := scale + all.length - 1 }

/-- **`shortest`** -- the digits of a finite number without its sign. -/
def shortest (x : Float) : Digits :=
  let r := Rounding.ofBits x.toBits
  if r.value = 0 then ⟨['0'], 0⟩
  else
    let top := magnitude r.value r.unit
    let found := (List.range 17).findSome? fun (places : Nat) =>
      (r.onGrid? (top - places)).map (Digits.ofNat · (top - places))
    found.getD (Digits.ofNat r.value 0)

/-- Whether a number carries a minus sign, as `-0.0` does. -/
def isNegative (x : Float) : Bool :=
  Nat.pow 2 63 ≤ x.toBits.toNat

end ChapterCheck.Decimal
