/-
Reports that show an error in its source.

A report names the error, the place where it is, and below that shows the line with the span of the
error under it.  Texts are coloured by terminal escape sequences.

* `Diagnostic.render` — the report of a label on a span of a source;
* `Diagnostic.locate` — the line that an offset falls into.

Design notes: spans are counted in characters here.  Lines end at any Unicode line break, and a line
break belongs to the line that it ends, so an offset at the very end of a source belongs to its last
line.  A source that the span does not fit into is not shown.
-/
import Transclude.Condition.Error
import Transclude.Markup.Error
import Transclude.Text.Blank
import Transclude.Text.Bytes
import Transclude.Text.Width

namespace Transclude.Diagnostic

/-! ### Colours -/

/-- The escape character that begins a colour. -/
def escape : Char := '\x1b'

/-- A text in a colour, by its code. -/
def coloured (code : String) (text : List Char) : List Char :=
  escape :: '[' :: (code.toList ++ 'm' :: (text ++ [escape, '[', '0', 'm']))

/-- A text in the colour of errors. -/
def red (text : List Char) : List Char := coloured "31" text

/-- A text in a shade of grey, by its number. -/
def grey (shade : Nat) (text : List Char) : List Char := coloured ("38;5;" ++ toString shade) text

/-- The shade of the frame. -/
def frame (text : List Char) : List Char := grey 246 text

/-- The shade of the margin beside the marks. -/
def margin (text : List Char) : List Char := grey 240 text

/-- The shade of the source outside the span. -/
def plain (text : List Char) : List Char := grey 249 text

/-! ### Lines -/

/-- A character that ends a line. -/
def isLineBreak (c : Char) : Bool :=
  let n := c.toNat
  (0x0A ≤ n && n ≤ 0x0D) || n == 0x85 || n == 0x2028 || n == 0x2029

/-- The lines of a source, each with the break that ends it. -/
def lines : List Char → List (List Char)
  | [] => []
  | '\r' :: '\n' :: cs => ['\r', '\n'] :: lines cs
  | c :: cs =>
    if isLineBreak c then [c] :: lines cs
    else
      match lines cs with
      | [] => [[c]]
      | l :: ls => (c :: l) :: ls

/-- A line of a source: its number from 1, the offset where it starts, and its characters. -/
structure Line where
  number : Nat
  start : Nat
  chars : List Char
  deriving DecidableEq

/-- The line that an offset falls into, among lines from a number and a start on. -/
def locateFrom (offset : Nat) : Nat → Nat → List (List Char) → Option Line
  | _, _, [] => none
  | number, start, [l] => some ⟨number, start, l⟩
  | number, start, l :: m :: ls =>
    if offset < start + l.length then some ⟨number, start, l⟩
    else locateFrom offset (number + 1) (start + l.length) (m :: ls)

/-- The line that an offset of a source falls into. -/
def locate (source : List Char) (offset : Nat) : Option Line :=
  locateFrom offset 1 0 (lines source)

/-! ### Layout -/

/-- Blanks. -/
def blanks (n : Nat) : List Char := List.replicate n ' '

/-- How wide a character is shown in a column: a tab reaches to the next multiple of four, and any other
blank is as wide as a space. -/
def width (c : Char) (column : Nat) : Nat :=
  if c = '\t' then 4 - column % 4 else if Text.isBlank c then 1 else Text.width c

/-- The columns of a line up to `stop`: each with its character, if it has one. -/
def columns (shown : List Char) (stop : Nat) : List (Nat × Option Char) :=
  (List.range stop).zip (shown.map some ++ List.replicate (stop - shown.length) none)

/-- What one column shows: `first`, and `more` for each further place that its character takes. -/
def cell (column : Nat × Option Char) (first more : List Char) : List Char :=
  let room :=
    match column.2 with
    | some c => width c column.1
    | none => 1
  match room with
  | 0 => []
  | n + 1 => first ++ (List.replicate n more).flatten

/-- A character of the source in its column; every blank is shown as a space. -/
def sourceCell (column : Nat) (c : Char) (marked : Bool) : List Char :=
  let colour := if marked then red else plain
  if Text.isBlank c then (List.replicate (width c column) (colour [' '])).flatten
  else colour [c]

/-- The source line without the blanks at its end. -/
def sourceRow (shown : List Char) (start stop : Nat) : List Char :=
  (shown.zipIdx.flatMap fun (c, i) => sourceCell i c (decide (start ≤ i ∧ i < stop)))

/-- The row that underlines the span and marks its middle. -/
def underlineRow (shown : List Char) (start stop middle : Nat) : List Char :=
  (columns shown (stop + 2)).flatMap fun column =>
    let inside := decide (start ≤ column.1 ∧ column.1 < stop)
    if column.1 = middle then
      if inside then cell column (red ['┬']) (red ['─']) else cell column (red ['│']) (red [' '])
    else if inside then cell column (red ['─']) (red ['─'])
    else cell column [' '] [' ']

/-- The row that leads from the middle of the span to its label. -/
def labelRow (shown : List Char) (stop middle : Nat) : List Char :=
  (columns shown (stop + 2)).flatMap fun column =>
    if column.1 < middle then cell column [' '] [' ']
    else if column.1 = middle then cell column (red ['╰']) (red ['─'])
    else cell column (red ['─']) (red ['─'])

/-- The part of a report that shows a line. -/
def excerpt (filename : String) (line : Line) (start stop : Nat) (label : String) : List Char :=
  let number := (toString line.number).toList
  let pad := blanks (number.length + 2)
  let side := ' ' :: (margin (blanks (number.length + 1) ++ ['│']) ++ [' '])
  let place :=
    filename.toList ++ ':' :: (number ++ ':' :: (toString (start - line.start + 1)).toList)
  let head :=
    pad ++ frame ['╭'] ++ frame ['─'] ++ frame ['['] ++ place ++ frame [']'] ++ '\n' ::
      (pad ++ frame ['│'] ++ ['\n'])
  let foot := frame (List.replicate (number.length + 2) '─' ++ ['╯']) ++ ['\n']
  let shown := (Text.trimStart line.chars.reverse).reverse
  let a := start - line.start
  let b := stop - line.start
  let middle := (start + stop) / 2 - line.start
  let body :=
    if line.start + line.chars.length < stop then side ++ ['\n']
    else
      ' ' :: (frame (number ++ [' ', '│']) ++ ' ' :: (sourceRow shown a b ++ '\n' ::
        (side ++ underlineRow shown a b middle ++ '\n' ::
          (side ++ labelRow shown b middle ++ ' ' :: (label.toList ++ ['\n'])))))
  head ++ body ++ foot

/-- The report of a label on the characters `start..stop` of a source. -/
def render (source filename : String) (start stop : Nat) (title label : String) : String :=
  let chars := source.toList
  let head := red "Error:".toList ++ ' ' :: (title.toList ++ ['\n'])
  let fits := decide (start ≤ chars.length ∧ (start < stop → stop - 1 ≤ chars.length))
  let shown :=
    if fits then
      match locate chars start with
      | some line => excerpt filename line start stop label
      | none => []
    else []
  String.ofList (head ++ shown)

/-! ### Reports of errors -/

/-- The report of a message about a document, from a byte offset on. -/
def ofDocument (source filename : String) (position : Nat) (message : String) : String :=
  let length := Text.byteLength source.toList
  let start := min position length
  render source filename start (min (start + 1) length) message message

/-- The report of an error in a document. -/
def ofParseError (source filename : String) (e : Markup.ParseError) : String :=
  ofDocument source filename e.position e.fault.message

/-- The report of a test that has no value; only a syntax error is in a part of it.  There is none for
a span that leads backwards. -/
def ofTest? (test : String) (cause : Condition.Error) : Option String :=
  let (start, stop) := cause.span?.getD (0, Text.byteLength test.toList)
  if start ≤ stop then
    some (render test "test" start stop "Cannot evaluate expression" cause.message)
  else none

end Transclude.Diagnostic
