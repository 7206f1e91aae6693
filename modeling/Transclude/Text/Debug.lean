/-
Texts in messages that show values.

A text is shown in double quotes with backslashes for what could not be seen otherwise.  Quotation
marks, backslashes and four controls have an escape of their own; all others are shown by code point.

* `debugText` — a text in quotes;
* `debugList` — a list of texts.
-/
import Transclude.Text.Ignorable
import Transclude.Text.Mark
import Transclude.Text.Unprintable

namespace Transclude.Text

/-- A code point in braces. -/
def codePoint (c : Char) : List Char :=
  '\\' :: 'u' :: '{' :: (Nat.toDigits 16 c.toNat ++ ['}'])

/-- Whether a character is shown by its code point. -/
def isHidden (c : Char) : Bool := isMark c || isIgnorable c || isUnprintable c

/-- A character in quotes. -/
def debugChar (c : Char) : List Char :=
  if c = '"' then ['\\', '"']
  else if c = '\\' then ['\\', '\\']
  else if c = '\n' then ['\\', 'n']
  else if c = '\r' then ['\\', 'r']
  else if c = '\t' then ['\\', 't']
  else if c.toNat = 0 then ['\\', '0']
  else if isHidden c then codePoint c
  else [c]

/-- A text in quotes. -/
def debugText (s : String) : String := String.ofList ('"' :: (s.toList.flatMap debugChar ++ ['"']))

/-- A list of texts in quotes. -/
def debugList (xs : List String) : String :=
  "[" ++ String.intercalate ", " (xs.map debugText) ++ "]"

end Transclude.Text
