/-
# ChapterCheck.Json.Printer -- documents as text

Two layouts of one format. `Value.compact` writes no blanks; `Value.pretty` gives every element and
every member a line of its own, indented by two, with `[]` and `{}` for what is empty. Members
appear in the order in which the value holds them.

`Number.text` writes a decimal with the fewest digits that read back, always with a point or an
exponent, so that no decimal is written as an integer.
-/
import ChapterCheck.Decimal.Shortest
import ChapterCheck.Json.Quoted
import ChapterCheck.Json.Value

namespace ChapterCheck.Json

/-! ## Numbers -/

/-- Exponents of ten from `-5` to `15` are written by the place of the point. -/
def isPositional (exponent : Int) : Bool :=
  -5 ≤ exponent && exponent ≤ 15

/-- Digits with the point where `exponent` puts it, at least one digit on either side. -/
def positional (d : Decimal.Digits) : List Char :=
  if d.exponent < 0 then
    '0' :: '.' :: (List.replicate (-d.exponent - 1).toNat '0' ++ d.digits)
  else
    let places := d.exponent.toNat + 1
    let whole := d.digits.take places
    let fraction := d.digits.drop places
    whole ++ List.replicate (places - whole.length) '0' ++
      '.' :: (if fraction.isEmpty then ['0'] else fraction)

/-- Digits with the point after the first one, and an exponent that always has a sign. -/
def scientific (d : Decimal.Digits) : List Char :=
  let sign := if d.exponent < 0 then '-' else '+'
  let mantissa := match d.digits with
    | first :: [] => [first]
    | first :: rest => first :: '.' :: rest
    | [] => []
  mantissa ++ 'e' :: sign :: Nat.toDigits 10 d.exponent.natAbs

/-- The text of a decimal; the format has none for an infinity or a NaN but `null`. -/
def decimalText (x : Float) : String :=
  if x.isFinite then
    let d := Decimal.shortest x
    let unsigned := if isPositional d.exponent then positional d else scientific d
    String.ofList (if Decimal.isNegative x then '-' :: unsigned else unsigned)
  else "null"

/-- The text of an integer. -/
def integerText (n : Int) : String :=
  if n < 0 then "-" ++ Nat.repr n.natAbs else Nat.repr n.natAbs

/-- **`Number.text`** -- the text of a number. -/
def Number.text : Number → String
  | .integer n => integerText n
  | .decimal x => decimalText x

/-! ## Compact -/

mutual
/-- **`Value.compact`** -- a document without blanks. -/
def Value.compact : Value → String
  | .null => "null"
  | .bool true => "true"
  | .bool false => "false"
  | .number n => n.text
  | .string s => quote s
  | .array items => "[" ++ ",".intercalate (compactItems items) ++ "]"
  | .object members => "\x7b" ++ ",".intercalate (compactMembers members) ++ "\x7d"

/-- The elements of an array, each without blanks. -/
def compactItems : List Value → List String
  | [] => []
  | x :: xs => x.compact :: compactItems xs

/-- The members of an object, each without blanks. -/
def compactMembers : List (String × Value) → List String
  | [] => []
  | (k, v) :: ms => (quote k ++ ":" ++ v.compact) :: compactMembers ms
end

/-! ## Pretty -/

/-- A new line at a level of indentation. -/
def lineAt (level : Nat) : String :=
  String.ofList ('\n' :: List.replicate (2 * level) ' ')

/-- Entries between brackets, each on a line of its own one level further in; empty brackets where
there are none. -/
def bracketed (level : Nat) (opening closing : String) (entries : List String) : String :=
  if entries.isEmpty then opening ++ closing
  else
    opening ++ lineAt (level + 1) ++ ("," ++ lineAt (level + 1)).intercalate entries
      ++ lineAt level ++ closing

mutual
/-- A document that begins in a line at `level`. -/
def Value.prettyAt (level : Nat) : Value → String
  | .array items => bracketed level "[" "]" (prettyItems (level + 1) items)
  | .object members => bracketed level "\x7b" "\x7d" (prettyMembers (level + 1) members)
  | v => v.compact

/-- The elements of an array that stand in lines at `level`. -/
def prettyItems (level : Nat) : List Value → List String
  | [] => []
  | x :: xs => x.prettyAt level :: prettyItems level xs

/-- The members of an object that stand in lines at `level`. -/
def prettyMembers (level : Nat) : List (String × Value) → List String
  | [] => []
  | (k, v) :: ms => (quote k ++ ": " ++ v.prettyAt level) :: prettyMembers level ms
end

/-- **`Value.pretty`** -- a document over many lines. -/
def Value.pretty (v : Value) : String :=
  v.prettyAt 0

/-! ## The decisions of the format, written out -/

example : (Number.decimal 100).text = "100.0" := by decide +kernel
example : (Number.decimal 0.00001).text = "0.00001" := by decide +kernel
example : (Number.decimal 1e16).text = "1e+16" := by decide +kernel
example : (Number.decimal (-1.5e-7)).text = "-1.5e-7" := by decide +kernel
example : quote "a\"\\\n\x01é" = "\"a\\\"\\\\\\n\\u0001é\"" := by decide +kernel
example : (Value.object [("k", .array [.null, .bool true])]).compact
    = "\x7b\"k\":[null,true]\x7d" := by decide +kernel

end ChapterCheck.Json
