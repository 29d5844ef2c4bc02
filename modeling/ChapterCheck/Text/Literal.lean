/-
# ChapterCheck.Text.Literal -- texts quoted inside messages

`literal` shows a text inside a message so that it stays on one line and can be told from what is
around it: in quotation marks, with escapes for these marks, for the backslash and for what has no
glyph of its own. All other characters stand for themselves.
-/
import ChapterCheck.Text.Unseen

namespace ChapterCheck.Text

/-- How a character stands in a literal. -/
def literalChar (c : Char) : List Char :=
  if c = '"' then ['\\', '"']
  else if c = '\\' then ['\\', '\\']
  else if c = '\n' then ['\\', 'n']
  else if c = '\r' then ['\\', 'r']
  else if c = '\t' then ['\\', 't']
  else if c.toNat = 0 then ['\\', '0']
  else if isUnseen c then '\\' :: 'u' :: '\x7b' :: (Nat.toDigits 16 c.toNat ++ ['\x7d'])
  else [c]

/-- **`literal`** -- a text as it is shown inside a message. -/
def literal (s : String) : String :=
  "\"" ++ String.ofList (s.toList.flatMap literalChar) ++ "\""

example : literal "a\"b\\\n" = "\"a\\\"b\\\\\\n\"" := by decide +kernel
example : literal "é\x7f" = "\"é\\u\x7b7f\x7d\"" := by decide +kernel

end ChapterCheck.Text
