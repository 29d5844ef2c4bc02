/-
# ChapterCheck.Text.Blank -- white space

The characters that Unicode gives the property `White_Space`. A text of nothing else says nothing:
`isBlank` is how a version tag is found to be empty.
-/

namespace ChapterCheck.Text

/-- **`whiteSpace`** -- the ranges of the Unicode property `White_Space`, ends included. -/
def whiteSpace : List (Nat × Nat) :=
  [(0x09, 0x0D), (0x20, 0x20), (0x85, 0x85), (0xA0, 0xA0), (0x1680, 0x1680), (0x2000, 0x200A),
   (0x2028, 0x2029), (0x202F, 0x202F), (0x205F, 0x205F), (0x3000, 0x3000)]

/-- A character with the property `White_Space`. -/
def isWhiteSpace (c : Char) : Bool :=
  whiteSpace.any fun (low, high) => low ≤ c.toNat && c.toNat ≤ high

/-- **`isBlank`** -- nothing but white space, or nothing at all. -/
def isBlank (s : String) : Bool :=
  s.toList.all isWhiteSpace

/-- The property has twenty-five characters. -/
example : (whiteSpace.map fun (low, high) => high + 1 - low).sum = 25 := by decide

end ChapterCheck.Text
