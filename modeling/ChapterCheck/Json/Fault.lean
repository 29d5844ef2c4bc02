/-
# ChapterCheck.Json.Fault -- why a text was refused, and where

A reader stops at the first byte that does not fit. The `Fault` it reports holds the cause, how much
of the input was still unread, and a `Mark` that says which byte the cause is about: the last one
read, the next one, or one further back. The readers carry no counters; line and column are worked
out from the fault.

How they are worked out depends on the `Source` of the input. In a text that is at hand as a whole,
the byte in question is a number of bytes into it, and its line is looked for from there backwards
(`Position.within`). A stream goes by once, so lines and columns are counted along with the bytes
that are taken from it (`Position.behind`), among them one that was only looked at.

Lines count from one. The column is the number of bytes of the line up to and with the byte in
question, which makes it zero right after a line break. At the end of the input there is no next
byte, and nothing is added for it.
-/

namespace ChapterCheck.Json

/-! ## Causes -/

/-- The **`Cause`** of a refusal: first what makes a text no document, then what makes a document
unfit where a record with known fields is asked for. -/
inductive Cause where
  | endInValue
  | endInList
  | endInObject
  | endInString
  | expectedValue
  | expectedWord
  | expectedColon
  | expectedListEnd
  | expectedObjectEnd
  | keyNotString
  | invalidNumber
  | numberOutOfRange
  | invalidEscape
  | loneSurrogate
  | unpairedSurrogate
  | controlCharacter
  | invalidUnicode
  | trailingComma
  | trailingCharacters
  | nestedTooDeep
  /-- A field outside the `known` ones. -/
  | unknownField (name known : String)
  /-- A field that came before. -/
  | duplicateField (name : String)
  /-- A value of another type than the `expected` one. -/
  | wrongType (found expected : String)
  /-- A value of the right type that the field cannot hold. -/
  | wrongValue (found expected : String)
  deriving DecidableEq, Repr

/-- The wording of a cause. -/
def Cause.text : Cause → String
  | .endInValue => "EOF while parsing a value"
  | .endInList => "EOF while parsing a list"
  | .endInObject => "EOF while parsing an object"
  | .endInString => "EOF while parsing a string"
  | .expectedValue => "expected value"
  | .expectedWord => "expected ident"
  | .expectedColon => "expected `:`"
  | .expectedListEnd => "expected `,` or `]`"
  | .expectedObjectEnd => "expected `,` or `\x7d`"
  | .keyNotString => "key must be a string"
  | .invalidNumber => "invalid number"
  | .numberOutOfRange => "number out of range"
  | .invalidEscape => "invalid escape"
  | .loneSurrogate => "lone leading surrogate in hex escape"
  | .unpairedSurrogate => "unexpected end of hex escape"
  | .controlCharacter => "control character (\\u0000-\\u001F) found while parsing a string"
  | .invalidUnicode => "invalid unicode code point"
  | .trailingComma => "trailing comma"
  | .trailingCharacters => "trailing characters"
  | .nestedTooDeep => "recursion limit exceeded"
  | .unknownField name known => "unknown field `" ++ name ++ "`, expected " ++ known
  | .duplicateField name => "duplicate field `" ++ name ++ "`"
  | .wrongType found expected => "invalid type: " ++ found ++ ", expected " ++ expected
  | .wrongValue found expected => "invalid value: " ++ found ++ ", expected " ++ expected

/-! ## Places -/

/-- Which byte a fault is about, seen from the border between what was read and what was not. -/
inductive Mark where
  /-- The last byte that was read. -/
  | last
  /-- The next byte, if there is one. -/
  | next
  /-- The last byte that was read, after a look at the next one. -/
  | looked
  /-- A byte that lies `count` before the last one of the same line. -/
  | back (count : Nat)
  deriving DecidableEq, Repr

/-- The **`Source`** of an input -- how it is at hand. -/
inductive Source where
  /-- As a whole, and known to be a text. -/
  | text
  /-- As bytes that come one after the other, of which nothing is known. -/
  | stream
  deriving DecidableEq, Repr

/-- A place in an input, by line and column. -/
structure Position where
  line : Nat
  column : Nat
  deriving DecidableEq, Repr

namespace Position

/-- **`within`** -- the place that lies `count` bytes into an input: the column since the last line
break in front of it, and the line by the breaks up to there. -/
def within (input : List UInt8) (count : Nat) : Position :=
  let column := ((input.take count).reverse.takeWhile (· != 10)).length
  ⟨1 + (input.take (count - column)).count 10, column⟩

/-- Where a stream begins. -/
def start : Position := ⟨1, 0⟩

/-- The place behind one more byte of a stream. -/
def after (p : Position) (b : UInt8) : Position :=
  if b = 10 then ⟨p.line + 1, 0⟩ else ⟨p.line, p.column + 1⟩

/-- **`behind`** -- the place right behind the bytes that were taken from a stream. -/
def behind (taken : List UInt8) : Position :=
  taken.foldl after start

/-- A place further back in the same line. -/
def back (p : Position) (count : Nat) : Position :=
  { p with column := p.column - count }

end Position

/-! ## Faults -/

/-- A **`Fault`** -- the cause, the number of bytes that were still unread, and the byte that the
cause is about. -/
structure Fault where
  cause : Cause
  unread : Nat
  mark : Mark
  deriving DecidableEq, Repr

namespace Fault

/-- A fault in the last byte before `rest`. -/
def last (cause : Cause) (rest : List UInt8) : Fault := ⟨cause, rest.length, .last⟩

/-- A fault in the first byte of `rest`. -/
def next (cause : Cause) (rest : List UInt8) : Fault := ⟨cause, rest.length, .next⟩

/-- A fault that shows in the last byte before `rest` after a look at the first byte of `rest`. -/
def looked (cause : Cause) (rest : List UInt8) : Fault := ⟨cause, rest.length, .looked⟩

/-- The place of a fault in a text. -/
def placeInText (fault : Fault) (input : List UInt8) : Position :=
  let used := input.length - fault.unread
  match fault.mark with
  | .last | .looked => .within input used
  | .next => .within input (min input.length (used + 1))
  | .back count => (Position.within input used).back count

/-- The place of a fault in a stream. What was looked at was taken from it. -/
def placeInStream (fault : Fault) (input : List UInt8) : Position :=
  let used := input.length - fault.unread
  match fault.mark with
  | .last => .behind (input.take used)
  | .next | .looked => .behind (input.take (used + 1))
  | .back count => (Position.behind (input.take used)).back count

/-- **`position`** -- the place of a fault in the input in which it was found. -/
def position (fault : Fault) (source : Source) (input : List UInt8) : Position :=
  match source with
  | .text => fault.placeInText input
  | .stream => fault.placeInStream input

/-- **`message`** -- cause and place. -/
def message (fault : Fault) (source : Source) (input : List UInt8) : String :=
  let p := fault.position source input
  fault.cause.text ++ " at line " ++ Nat.repr p.line ++ " column " ++ Nat.repr p.column

end Fault

end ChapterCheck.Json
