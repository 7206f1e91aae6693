/-
Blank characters and trimming.

A character is blank when it has the Unicode property White_Space: 25 code points, none of them
above U+3000.  Placeholders, numeric strings and the text nodes of a fragment all use this class;
zero-width characters (U+200B, U+FEFF) are not in it.

* `isBlank` — the class;
* `trim`, `allBlank` — a text without the blanks at its two ends, and whether there is nothing else.
-/

namespace Transclude.Text

/-- The Unicode property White_Space. -/
def isBlank (c : Char) : Bool :=
  let n := c.toNat
  (0x09 ≤ n && n ≤ 0x0D) || n == 0x20 || n == 0x85 || n == 0xA0 || n == 0x1680
    || (0x2000 ≤ n && n ≤ 0x200A) || n == 0x2028 || n == 0x2029 || n == 0x202F || n == 0x205F
    || n == 0x3000

/-- The text without the blanks at its start. -/
def trimStart (cs : List Char) : List Char := cs.dropWhile isBlank

/-- The text without the blanks at its two ends. -/
def trim (cs : List Char) : List Char := (trimStart (trimStart cs).reverse).reverse

/-- Nothing but blanks; the empty text counts. -/
def allBlank (cs : List Char) : Bool := cs.all isBlank

end Transclude.Text
