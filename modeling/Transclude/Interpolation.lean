/-
Placeholders and their substitution.

A placeholder is `{{`, an identifier between optional blanks, and `}}`; the identifier has no braces
and no blanks, and may be empty.  Placeholders are found from left to right without overlap.  One
whose identifier names something in the context is replaced by it; any other stays as written.

* `Item` — a text in a context: its own characters, and the values in place of placeholders;
* `interpolate` — every value by its text;
* `interpolateTest` — every value so that a test reads it as a literal.

Design notes: `items` is the one place where placeholders are found and looked up; both kinds of
substitution then go over the items once, so that a substituted text is never searched again.  For
tests a `Quoting` follows the quotation marks of the text's own characters: inside a quoted literal
a value is spliced in with its quotation marks and backslashes escaped, and outside it becomes a
literal of its own.
-/
import Transclude.Text.Blank
import Transclude.Value.Lookup
import Transclude.Value.Printer

namespace Transclude.Interpolation

/-! ### Placeholders -/

/-- A character that an identifier may have. -/
def isIdentChar (c : Char) : Bool := c != '{' && c != '}' && !Text.isBlank c

/-- The identifier of the placeholder that a text begins with, and what follows the placeholder. -/
def placeholder? : List Char → Option (List Char × List Char)
  | '{' :: '{' :: cs =>
    let body := cs.dropWhile Text.isBlank
    match (body.dropWhile isIdentChar).dropWhile Text.isBlank with
    | '}' :: '}' :: rest => some (body.takeWhile isIdentChar, rest)
    | _ => none
  | _ => none

/-- A part of a text: a character, or a placeholder as it is written. -/
inductive Piece where
  | char (c : Char)
  | placeholder (written ident : List Char)
  deriving DecidableEq

/-- The pieces of a text after its next `skip` characters. -/
def piecesFrom : Nat → List Char → List Piece
  | _, [] => []
  | skip + 1, _ :: cs => piecesFrom skip cs
  | 0, c :: cs =>
    match placeholder? (c :: cs) with
    | some (ident, rest) =>
      let length := (c :: cs).length - rest.length
      .placeholder ((c :: cs).take length) ident :: piecesFrom (length - 1) cs
    | none => .char c :: piecesFrom 0 cs

/-- The pieces of a text, with the leftmost placeholders. -/
def pieces (text : List Char) : List Piece := piecesFrom 0 text

/-! ### Substitution -/

/-- A part of a text in a context: a character of the text, or a value in place of a placeholder. -/
inductive Item where
  | own (c : Char)
  | value (v : Value)

/-- What a piece stands for in a context. -/
def Piece.items (context : Value) : Piece → List Item
  | .char c => [.own c]
  | .placeholder written ident =>
    match context.lookup? ident with
    | some v => [.value v]
    | none => written.map .own

/-- The items of a text in a context. -/
def items (text : List Char) (context : Value) : List Item :=
  (pieces text).flatMap (Piece.items context)

/-- An item as text. -/
def Item.text : Item → List Char
  | .own c => [c]
  | .value v => v.text.toList

/-- The text with every placeholder that names something replaced by the text of its value. -/
def interpolateChars (text : List Char) (context : Value) : List Char :=
  (items text context).flatMap Item.text

/-- A text interpolated in a context, as a `String`. -/
def interpolate (text : String) (context : Value) : String :=
  String.ofList (interpolateChars text.toList context)

/-! ### Substitution into tests -/

/-- A quotation mark of a literal. -/
def isQuote (c : Char) : Bool := c = '\'' || c = '"'

/-- How far a text has come in a quoted literal. -/
structure Quoting where
  /-- The quotation mark that opened the literal. -/
  opened : Option Char
  /-- Whether the last character was a backslash that is not itself escaped. -/
  escaped : Bool
  deriving DecidableEq

namespace Quoting

/-- Before any character: outside quotes. -/
def start : Quoting := ⟨none, false⟩

/-- After one more character. -/
def next (s : Quoting) (c : Char) : Quoting :=
  match s.opened with
  | some q =>
    if s.escaped then ⟨some q, false⟩
    else if c = '\\' then ⟨some q, true⟩
    else if c = q then ⟨none, false⟩
    else s
  | none => if isQuote c then ⟨some c, s.escaped⟩ else s

/-- After more characters. -/
def advance (s : Quoting) (cs : List Char) : Quoting := cs.foldl next s

theorem advance_append (s : Quoting) (a b : List Char) :
    s.advance (a ++ b) = (s.advance a).advance b := by simp [advance]

end Quoting

/-- The characters with a backslash before every backslash and quotation mark. -/
def escapeQuotes (cs : List Char) : List Char :=
  cs.flatMap fun c => if c = '\\' || isQuote c then ['\\', c] else [c]

/-- A value as a literal of a test. -/
def literal (v : Value) : List Char :=
  match v with
  | .null => v.text.toList
  | .bool _ => v.text.toList
  | .number _ => v.text.toList
  | _ => '\'' :: (escapeQuotes v.text.toList ++ ['\''])

/-- The items as the text of a test, from some place in it on. -/
def testChars : Quoting → List Item → List Char
  | _, [] => []
  | s, .own c :: rest => c :: testChars (s.next c) rest
  | s, .value v :: rest =>
    (if s.opened.isSome then escapeQuotes v.text.toList else literal v) ++ testChars s rest

/-- The test with every placeholder that names something replaced by a literal, or spliced into the
quoted literal around it. -/
def interpolateTestChars (text : List Char) (context : Value) : List Char :=
  testChars .start (items text context)

/-- A test interpolated in a context, as a `String`. -/
def interpolateTest (text : String) (context : Value) : String :=
  String.ofList (interpolateTestChars text.toList context)

end Transclude.Interpolation
