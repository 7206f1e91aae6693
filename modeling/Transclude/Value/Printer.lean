/-
The text of a value.

* `Value.toJson` — compact JSON: no blanks, the members of an object in the order of their keys;
* `Value.text` — the text as it appears in output: a string as it is, all else as JSON.

Design notes: strings escape the quotation mark, the backslash and the characters below U+0020, and
nothing else.  Floats are written with the fewest digits that read back, positionally while
`d.ddd · 10^e` has `-5 ≤ e ≤ 15`, and whole ones are marked by `.0`.
-/
import Transclude.Value.Basic

namespace Transclude

/-- Floats in JSON text: between two equally near decimals the even one, exponents from 10^16 up and
below 10^-5, and whole numbers marked. -/
def Number.layout : Layout := ⟨.toEven, some (-5, 15), true⟩

/-- The JSON text of a number. -/
def Number.toJson : Number → List Char
  | .integer i _ => (if i < 0 then ['-'] else []) ++ Nat.toDigits 10 i.natAbs
  | .float x => Number.layout.write x

namespace Value

/-- The escape of a character below U+0020 that has no short one. -/
def controlEscape (c : Char) : List Char :=
  ['\\', 'u', '0', '0', Nat.digitChar (c.toNat / 16), Nat.digitChar (c.toNat % 16)]

/-- A character of a JSON string. -/
def jsonChar (c : Char) : List Char :=
  if c = '"' then ['\\', '"']
  else if c = '\\' then ['\\', '\\']
  else if c = '\n' then ['\\', 'n']
  else if c = '\r' then ['\\', 'r']
  else if c = '\t' then ['\\', 't']
  else if c = '\x08' then ['\\', 'b']
  else if c = '\x0c' then ['\\', 'f']
  else if c.toNat < 0x20 then controlEscape c
  else [c]

/-- A JSON string with its quotation marks. -/
def jsonString (s : String) : List Char := '"' :: (s.toList.flatMap jsonChar ++ ['"'])

mutual

/-- The compact JSON text. -/
def json : Value → List Char
  | null => "null".toList
  | bool true => "true".toList
  | bool false => "false".toList
  | number n => n.toJson
  | string s => jsonString s
  | array xs => '[' :: (jsonItems xs ++ [']'])
  | object ms => '{' :: (jsonMembers ms ++ ['}'])

/-- The items with commas between them. -/
def jsonItems : List Value → List Char
  | [] => []
  | [x] => json x
  | x :: y :: xs => json x ++ ',' :: jsonItems (y :: xs)

/-- The members with commas between them. -/
def jsonMembers : List (String × Value) → List Char
  | [] => []
  | [(k, v)] => jsonString k ++ ':' :: json v
  | (k, v) :: m :: ms => jsonString k ++ ':' :: (json v ++ ',' :: jsonMembers (m :: ms))

end

/-- The compact JSON text as a string. -/
def toJson (v : Value) : String := String.ofList v.json

/-- The text form of a value in output. -/
def text : Value → String
  | string s => s
  | v => v.toJson

end Value

end Transclude
