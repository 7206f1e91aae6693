/-
Reading values from JSON text.

The reader stops at the first fault and says where: a line and a column, both counted in bytes.
Faults that were only looked at are placed after the byte looked at, so the column of a missing
value is that of the character in its place.

* `Value.ofJson` — a whole text: one value with nothing but blanks around it;
* `ReadFault.message` — the wording of each fault.

Design notes: numbers without fraction and exponent that fit 64 bits are integers; any other number
is its significand, cut to what fits 64 bits and rounded, times or divided by a rounded power of
ten.  That is not always the nearest number, but it is the same for every text.  Arrays and objects
nest at most 127 deep.
-/
import Transclude.Text.Bytes
import Transclude.Value.Basic

namespace Transclude

/-- Why a text is not JSON. -/
inductive ReadFault where
  | endInList
  | endInObject
  | endInString
  | endInValue
  | expectedColon
  | expectedListCommaOrEnd
  | expectedObjectCommaOrEnd
  | expectedIdent
  | expectedValue
  | invalidEscape
  | invalidNumber
  | numberOutOfRange
  | controlCharacter
  | keyNotString
  | loneSurrogate
  | trailingComma
  | trailingCharacters
  | unexpectedEndOfHexEscape
  | nestedTooDeeply
  deriving DecidableEq

/-- The wording of a fault. -/
def ReadFault.message : ReadFault → String
  | endInList => "EOF while parsing a list"
  | endInObject => "EOF while parsing an object"
  | endInString => "EOF while parsing a string"
  | endInValue => "EOF while parsing a value"
  | expectedColon => "expected `:`"
  | expectedListCommaOrEnd => "expected `,` or `]`"
  | expectedObjectCommaOrEnd => "expected `,` or `\x7d`"
  | expectedIdent => "expected ident"
  | expectedValue => "expected value"
  | invalidEscape => "invalid escape"
  | invalidNumber => "invalid number"
  | numberOutOfRange => "number out of range"
  | controlCharacter => "control character (\\u0000-\\u001F) found while parsing a string"
  | keyNotString => "key must be a string"
  | loneSurrogate => "lone leading surrogate in hex escape"
  | trailingComma => "trailing comma"
  | trailingCharacters => "trailing characters"
  | unexpectedEndOfHexEscape => "unexpected end of hex escape"
  | nestedTooDeeply => "recursion limit exceeded"

/-- A fault with its place. -/
structure ReadError where
  fault : ReadFault
  line : Nat
  column : Nat
  deriving DecidableEq

/-- The full message. -/
def ReadError.message (e : ReadError) : String :=
  e.fault.message ++ " at line " ++ toString e.line ++ " column " ++ toString e.column

namespace Value.Reader

/-- A fault and the number of bytes that were not read. -/
structure Stop where
  fault : ReadFault
  left : Nat

/-- A result with the text that follows it. -/
abbrev Read (α : Type) := α × List Char

/-- A fault where the reader stands. -/
def stopAt {α : Type} (fault : ReadFault) (rest : List Char) : Except Stop α :=
  .error ⟨fault, Text.byteLength rest⟩

/-- A fault just after the next byte, if there is one. -/
def stopAfter {α : Type} (fault : ReadFault) (rest : List Char) : Except Stop α :=
  .error ⟨fault, Text.byteLength rest - 1⟩

/-- The blanks between the parts of a JSON text. -/
def isSpace (c : Char) : Bool := c = ' ' || c = '\n' || c = '\t' || c = '\r'

/-- The text after the blanks at its start. -/
def skipSpace (rest : List Char) : List Char := rest.dropWhile isSpace

/-- The rest of a keyword. -/
def word {α : Type} (value : α) : List Char → List Char → Except Stop (Read α)
  | [], rest => .ok (value, rest)
  | _ :: _, [] => stopAt .endInValue []
  | w :: ws, c :: rest => if w = c then word value ws rest else stopAfter .expectedIdent (c :: rest)

/-! ### Strings -/

/-- The value of a hexadecimal digit. -/
def hexDigit? (c : Char) : Option Nat :=
  if c.isDigit then some (c.toNat - '0'.toNat)
  else if 'a' ≤ c ∧ c ≤ 'f' then some (c.toNat - 'a'.toNat + 10)
  else if 'A' ≤ c ∧ c ≤ 'F' then some (c.toNat - 'A'.toNat + 10)
  else none

/-- Four hexadecimal digits. -/
def hexEscape : List Char → Except Stop (Read Nat)
  | a :: b :: c :: d :: rest =>
    if (a.utf8Size + b.utf8Size + c.utf8Size + d.utf8Size == 4) then
      match hexDigit? a, hexDigit? b, hexDigit? c, hexDigit? d with
      | some a, some b, some c, some d => .ok (((a * 16 + b) * 16 + c) * 16 + d, rest)
      | _, _, _, _ => stopAt .invalidEscape rest
    else .error ⟨.invalidEscape, Text.byteLength (a :: b :: c :: d :: rest) - 4⟩
  | rest =>
    if Text.byteLength rest < 4 then stopAt .endInString []
    else .error ⟨.invalidEscape, Text.byteLength rest - 4⟩

/-- The character of a `\u` escape; one beyond the basic plane takes two of them. -/
def unicodeEscape (rest : List Char) : Except Stop (Read Char) := do
  let (high, rest) ← hexEscape rest
  if 0xDC00 ≤ high ∧ high ≤ 0xDFFF then stopAt .loneSurrogate rest
  else if 0xD800 ≤ high ∧ high ≤ 0xDBFF then
    match rest with
    | [] => stopAt .endInString []
    | '\\' :: [] => stopAt .endInString []
    | '\\' :: 'u' :: rest => do
      let (low, rest) ← hexEscape rest
      if 0xDC00 ≤ low ∧ low ≤ 0xDFFF then
        .ok (Char.ofNat (0x10000 + (high - 0xD800) * 0x400 + (low - 0xDC00)), rest)
      else stopAt .loneSurrogate rest
    | '\\' :: rest => stopAfter .unexpectedEndOfHexEscape rest
    | rest => stopAfter .unexpectedEndOfHexEscape rest
  else .ok (Char.ofNat high, rest)

/-- The character of an escape, after the backslash. -/
def escape : List Char → Except Stop (Read Char)
  | [] => stopAt .endInString []
  | 'u' :: rest => unicodeEscape rest
  | c :: rest =>
    match c with
    | '"' => .ok ('"', rest)
    | '\\' => .ok ('\\', rest)
    | '/' => .ok ('/', rest)
    | 'b' => .ok ('\x08', rest)
    | 'f' => .ok ('\x0c', rest)
    | 'n' => .ok ('\n', rest)
    | 'r' => .ok ('\r', rest)
    | 't' => .ok ('\t', rest)
    | c => stopAfter .invalidEscape (c :: rest)

/-- The rest of a string, after its first quotation mark; `fuel` bounds its characters. -/
def string : Nat → List Char → List Char → Except Stop (Read String)
  | 0, _, rest => stopAt .endInString rest
  | _ + 1, _, [] => stopAt .endInString []
  | _ + 1, read, '"' :: rest => .ok (String.ofList read.reverse, rest)
  | fuel + 1, read, '\\' :: rest => do
    let (c, rest) ← escape rest
    string fuel (c :: read) rest
  | fuel + 1, read, c :: rest =>
    if c.toNat < 0x20 then stopAfter .controlCharacter (c :: rest)
    else string fuel (c :: read) rest

/-! ### Numbers -/

/-- Whether a significand has no room for one more digit in 64 bits. -/
def isFull (significand digit : Nat) : Bool :=
  18446744073709551616 ≤ significand * 10 + digit

/-- The power of ten as a binary64 number. -/
def powerOfTen (n : Nat) : Binary64 := .ofRatio false (Nat.pow 10 n) 1

/-- Divides by 10^308 until the exponent is within reach of one power; `none` for a number that is
too large.  Two steps reach zero from any significand. -/
def scaleDown : Nat → Binary64.Finite → Int → Option Binary64
  | 0, x, _ => some (.finite x)
  | fuel + 1, x, exponent =>
    if exponent.natAbs ≤ 308 then
      match powerOfTen exponent.natAbs with
      | .finite p =>
        if 0 ≤ exponent then
          match Binary64.mulFinite x p with
          | .finite y => some (.finite y)
          | _ => none
        else some (Binary64.divFinite x p)
      | _ => none
    else if x.significand = 0 then some (.finite x)
    else if 0 ≤ exponent then none
    else
      match powerOfTen 308 with
      | .finite p =>
        match Binary64.divFinite x p with
        | .finite y => scaleDown fuel y (exponent + 308)
        | _ => none
      | _ => none

/-- A float from its significand and exponent. -/
def float (negative : Bool) (significand : Nat) (exponent : Int) (rest : List Char) :
    Except Stop (Read Number) :=
  match Binary64.ofInt significand with
  | .finite x =>
    match scaleDown 4 x exponent with
    | some (.finite y) => .ok (.float { y with negative := negative }, rest)
    | _ => stopAt .numberOutOfRange rest
  | _ => stopAt .numberOutOfRange rest

/-- The digits of an exponent, after others with the value `n`: the value of them all and what follows
them, or, if it has no room in 31 bits, what follows the first digit that is too many. -/
def exponentDigits : Nat → List Char → Except (List Char) (Nat × List Char)
  | n, [] => .ok (n, [])
  | n, c :: rest =>
    if c.isDigit then
      let more := n * 10 + (c.toNat - '0'.toNat)
      if 2147483648 ≤ more then .error rest else exponentDigits more rest
    else .ok (n, c :: rest)

/-- The exponent part, after its `e`. -/
def exponentPart (negative : Bool) (significand : Nat) (start : Int) (rest : List Char) :
    Except Stop (Read Number) :=
  let (down, rest) :=
    match rest with
    | '+' :: rest => (false, rest)
    | '-' :: rest => (true, rest)
    | rest => (false, rest)
  match rest with
  | [] => stopAt .endInValue []
  | c :: _ =>
    if c.isDigit then
      match exponentDigits 0 rest with
      | .ok (n, rest) => float negative significand (if down then start - n else start + n) rest
      | .error rest =>
        if significand ≠ 0 && !down then stopAt .numberOutOfRange rest
        else .ok (.float (.zero negative), rest.dropWhile Char.isDigit)
    else stopAfter .invalidNumber rest

/-- The digits after the point as far as they fit; the rest of the digits counts for nothing. -/
def fractionDigits : Nat → Int → List Char → Nat × Int × List Char
  | significand, exponent, [] => (significand, exponent, [])
  | significand, exponent, c :: rest =>
    if c.isDigit then
      let digit := c.toNat - '0'.toNat
      if isFull significand digit then (significand, exponent, rest.dropWhile Char.isDigit)
      else fractionDigits (significand * 10 + digit) (exponent - 1) rest
    else (significand, exponent, c :: rest)

/-- The fraction, after its point, and what follows it. -/
def fractionPart (negative : Bool) (significand : Nat) (start : Int) (rest : List Char) :
    Except Stop (Read Number) :=
  match rest with
  | [] => stopAt .endInValue []
  | c :: _ =>
    if c.isDigit then
      let (significand, exponent, rest) := fractionDigits significand start rest
      match rest with
      | c :: after =>
        if c = 'e' ∨ c = 'E' then exponentPart negative significand exponent after
        else float negative significand exponent rest
      | [] => float negative significand exponent []
    else stopAfter .invalidNumber rest

/-- The integer digits that fit, and how many follow that do not. -/
def wholeDigits : Nat → List Char → Nat × Nat × List Char
  | significand, [] => (significand, 0, [])
  | significand, c :: rest =>
    if c.isDigit then
      let digit := c.toNat - '0'.toNat
      if isFull significand digit then
        let more := (c :: rest).takeWhile Char.isDigit
        (significand, more.length, rest.dropWhile Char.isDigit)
      else wholeDigits (significand * 10 + digit) rest
    else (significand, 0, c :: rest)

/-- An integer that fits, or the float nearest to it. -/
def integer (negative : Bool) (significand : Nat) (rest : List Char) : Except Stop (Read Number) :=
  let i : Int := if negative then -(significand : Int) else significand
  if negative && significand == 0 then .ok (.float (.zero true), rest)
  else if h : -9223372036854775808 ≤ i ∧ i < 18446744073709551616 then .ok (.integer i h, rest)
  else
    match Binary64.ofInt i with
    | .finite x => .ok (.float x, rest)
    | _ => stopAt .numberOutOfRange rest

/-- A number, after its sign. -/
def number (negative : Bool) (rest : List Char) : Except Stop (Read Number) :=
  match rest with
  | [] => stopAt .endInValue []
  | c :: after =>
    if !c.isDigit then stopAfter .invalidNumber rest
    else if c = '0' ∧ (after.head?.any Char.isDigit) then stopAfter .invalidNumber after
    else
      let (significand, dropped, rest) := wholeDigits 0 rest
      match rest with
      | '.' :: after => fractionPart negative significand dropped after
      | 'e' :: after => exponentPart negative significand dropped after
      | 'E' :: after => exponentPart negative significand dropped after
      | rest =>
        if dropped = 0 then integer negative significand rest
        else float negative significand dropped rest

/-! ### Values -/

/-- The colon between a key and its value. -/
def colon (rest : List Char) : Except Stop (List Char) :=
  match skipSpace rest with
  | [] => stopAfter .endInObject []
  | ':' :: rest => .ok rest
  | rest => stopAfter .expectedColon rest

mutual

/-- A value; `depth` more levels may be opened in it. -/
def value : Nat → Nat → List Char → Except Stop (Read Value)
  | 0, _, rest => stopAt .endInValue rest
  | fuel + 1, depth, rest =>
    match skipSpace rest with
    | [] => stopAfter .endInValue []
    | 'n' :: rest => word .null ['u', 'l', 'l'] rest
    | 't' :: rest => word (.bool true) ['r', 'u', 'e'] rest
    | 'f' :: rest => word (.bool false) ['a', 'l', 's', 'e'] rest
    | '-' :: rest => (number true rest).map fun (n, rest) => (.number n, rest)
    | '"' :: rest => (string rest.length.succ [] rest).map fun (s, rest) => (.string s, rest)
    | '[' :: rest =>
      match depth with
      | 0 => stopAfter .nestedTooDeeply ('[' :: rest)
      | depth + 1 => items fuel depth true [] rest
    | '{' :: rest =>
      match depth with
      | 0 => stopAfter .nestedTooDeeply ('{' :: rest)
      | depth + 1 => members fuel depth true [] rest
    | c :: rest =>
      if c.isDigit then (number false (c :: rest)).map fun (n, rest) => (.number n, rest)
      else stopAfter .expectedValue (c :: rest)

/-- The rest of an array, after the items read so far. -/
def items : Nat → Nat → Bool → List Value → List Char → Except Stop (Read Value)
  | 0, _, _, _, rest => stopAt .endInList rest
  | fuel + 1, depth, first, read, rest =>
    match skipSpace rest with
    | [] => stopAfter .endInList []
    | ']' :: rest => .ok (.array read.reverse, rest)
    | c :: rest =>
      if first then do
        let (v, rest) ← value fuel depth (c :: rest)
        items fuel depth false (v :: read) rest
      else if c = ',' then
        match skipSpace rest with
        | [] => stopAfter .endInValue []
        | ']' :: rest => stopAfter .trailingComma (']' :: rest)
        | rest => do
          let (v, rest) ← value fuel depth rest
          items fuel depth false (v :: read) rest
      else stopAfter .expectedListCommaOrEnd (c :: rest)

/-- The rest of an object, after the members read so far. -/
def members : Nat → Nat → Bool → List (String × Value) → List Char → Except Stop (Read Value)
  | 0, _, _, _, rest => stopAt .endInObject rest
  | fuel + 1, depth, first, read, rest =>
    match skipSpace rest with
    | [] => stopAfter .endInObject []
    | '}' :: rest => .ok (.ofMembers read.reverse, rest)
    | c :: rest =>
      if first then
        if c = '"' then do
          let (k, rest) ← string rest.length.succ [] rest
          let rest ← colon rest
          let (v, rest) ← value fuel depth rest
          members fuel depth false ((k, v) :: read) rest
        else stopAfter .keyNotString (c :: rest)
      else if c = ',' then
        match skipSpace rest with
        | [] => stopAfter .endInValue []
        | '"' :: rest => do
          let (k, rest) ← string rest.length.succ [] rest
          let rest ← colon rest
          let (v, rest) ← value fuel depth rest
          members fuel depth false ((k, v) :: read) rest
        | '}' :: rest => stopAfter .trailingComma ('}' :: rest)
        | rest => stopAfter .keyNotString rest
      else stopAfter .expectedObjectCommaOrEnd (c :: rest)

end

/-- The line and column of a byte offset: the lines before it, and the bytes since the last. -/
def place : Nat → Nat → Nat → Nat → List Char → Nat × Nat
  | offset, line, start, _, [] => (line, offset - start)
  | offset, line, start, position, c :: cs =>
    if offset ≤ position then (line, offset - start)
    else if c = '\n' then place offset (line + 1) (position + 1) (position + 1) cs
    else place offset line start (position + c.utf8Size) cs

end Value.Reader

open Value.Reader in
/-- The value that a JSON text holds. -/
def Value.ofJson (text : List Char) : Except ReadError Value :=
  let outcome : Except Stop Value := do
    let (v, rest) ← value (2 * text.length + 2) 127 text
    match skipSpace rest with
    | [] => .ok v
    | rest => stopAfter .trailingCharacters rest
  match outcome with
  | .ok v => .ok v
  | .error stop =>
    let (line, column) := place (Text.byteLength text - stop.left) 1 0 0 text
    .error ⟨stop.fault, line, column⟩

end Transclude
