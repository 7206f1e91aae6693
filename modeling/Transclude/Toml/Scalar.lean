/-
Keys, strings, numbers and dates of configuration files.

Each reader takes a text and gives what it read with the rest of the text, or nothing if the text
does not begin with what it reads.

* `string?` — a string in any of the four notations;
* `number?` — an integer of 64 bits or a float;
* `datetime?` — a date, a time, or both with an optional offset.
-/
import Transclude.Toml.Basic

namespace Transclude.Toml

/-- A reader: what it read, and the rest. -/
abbrev Reader (α : Type) := List Char → Option (α × List Char)

/-- The blanks within a line. -/
def isSpace (c : Char) : Bool := c = ' ' || c = '\t'

/-- The text after the blanks at its start. -/
def skipSpace (cs : List Char) : List Char := cs.dropWhile isSpace

/-- A character of a comment or a string, delimiters aside: no control character but the tab. -/
def isPlain (c : Char) : Bool := c = '\t' || (0x20 ≤ c.toNat && c.toNat != 0x7F)

/-- A line break: a line feed, with an optional carriage return before it. -/
def newline? : List Char → Option (List Char)
  | '\n' :: cs => some cs
  | '\r' :: '\n' :: cs => some cs
  | _ => none

/-- Reads a given text. -/
def literally? : List Char → List Char → Option (List Char)
  | [], cs => some cs
  | _ :: _, [] => none
  | l :: ls, c :: cs => if l = c then literally? ls cs else none

/-! ### Strings -/

/-- The value of a hexadecimal digit. -/
def hexValue? (c : Char) : Option Nat :=
  if c.isDigit then some (c.toNat - '0'.toNat)
  else if 'a' ≤ c ∧ c ≤ 'f' then some (c.toNat - 'a'.toNat + 10)
  else if 'A' ≤ c ∧ c ≤ 'F' then some (c.toNat - 'A'.toNat + 10)
  else none

/-- The character whose code is written in exactly `count` hexadecimal digits. -/
def unicode? (count : Nat) (cs : List Char) : Option (Char × List Char) :=
  let digits := (cs.take count).filterMap hexValue?
  let code := digits.foldl (fun n d => 16 * n + d) 0
  if digits.length = count ∧ code.isValidChar then some (Char.ofNat code, cs.drop count) else none

/-- An escape, after its backslash. -/
def escape? : Reader Char
  | 'b' :: cs => some ('\x08', cs)
  | 't' :: cs => some ('\t', cs)
  | 'n' :: cs => some ('\n', cs)
  | 'f' :: cs => some ('\x0c', cs)
  | 'r' :: cs => some ('\r', cs)
  | '"' :: cs => some ('"', cs)
  | '\\' :: cs => some ('\\', cs)
  | 'u' :: cs => unicode? 4 cs
  | 'U' :: cs => unicode? 8 cs
  | _ => none

/-- The rest of a string of one line in double quotes. -/
def basic? : Nat → List Char → Reader String
  | 0, _, _ => none
  | _ + 1, _, [] => none
  | fuel + 1, read, c :: cs =>
    if c = '"' then some (String.ofList read.reverse, cs)
    else if c = '\\' then
      match escape? cs with
      | some (d, cs) => basic? fuel (d :: read) cs
      | none => none
    else if isPlain c then basic? fuel (c :: read) cs
    else none

/-- The rest of a string of one line in single quotes. -/
def literal? : List Char → Reader String
  | _, [] => none
  | read, c :: cs =>
    if c = '\'' then some (String.ofList read.reverse, cs)
    else if isPlain c then literal? (c :: read) cs
    else none

/-- The blanks and line breaks after a backslash at the end of a line. -/
def skipLines : List Char → List Char
  | '\r' :: '\n' :: cs => skipLines cs
  | c :: cs => if isSpace c || c = '\n' then skipLines cs else c :: cs
  | [] => []

/-- The rest of a string of several lines between triple quotes.  Up to two quotes may stand directly
before the closing three. -/
def multiline? (quote : Char) (escapes : Bool) : Nat → List Char → Reader String
  | 0, _, _ => none
  | _ + 1, _, [] => none
  | fuel + 1, read, c :: cs =>
    if c = quote then
      let run := (c :: cs).takeWhile (· == quote)
      let rest := (c :: cs).dropWhile (· == quote)
      if run.length < 3 then multiline? quote escapes fuel (run ++ read) rest
      else if run.length ≤ 5 then
        some (String.ofList (List.replicate (run.length - 3) quote ++ read).reverse, rest)
      else none
    else if escapes && c = '\\' then
      match newline? (skipSpace cs) with
      | some cs => multiline? quote escapes fuel read (skipLines cs)
      | none =>
        match escape? cs with
        | some (d, cs) => multiline? quote escapes fuel (d :: read) cs
        | none => none
    else
      match newline? (c :: cs) with
      | some cs => multiline? quote escapes fuel ('\n' :: read) cs
      | none => if isPlain c then multiline? quote escapes fuel (c :: read) cs else none

/-- The text after a line break at its start, if there is one. -/
def afterNewline (cs : List Char) : List Char := (newline? cs).getD cs

/-- A string in any notation. -/
def string? : Reader String
  | '"' :: '"' :: '"' :: cs => multiline? '"' true (cs.length + 1) [] (afterNewline cs)
  | '\'' :: '\'' :: '\'' :: cs => multiline? '\'' false (cs.length + 1) [] (afterNewline cs)
  | '"' :: cs => basic? (cs.length + 1) [] cs
  | '\'' :: cs => literal? [] cs
  | _ => none

/-! ### Keys -/

/-- A character of a key without quotes. -/
def isBareChar (c : Char) : Bool := c.isAlphanum || c = '_' || c = '-'

/-- One part of a key: bare, or in quotes on one line. -/
def simpleKey? : Reader String
  | '"' :: cs => basic? (cs.length + 1) [] cs
  | '\'' :: cs => literal? [] cs
  | cs =>
    let bare := cs.takeWhile isBareChar
    if bare.isEmpty then none else some (String.ofList bare, cs.dropWhile isBareChar)

/-- The parts of a dotted key, with optional blanks around each. -/
def key? : Nat → Reader (List String)
  | 0, _ => none
  | fuel + 1, cs =>
    match simpleKey? (skipSpace cs) with
    | none => none
    | some (part, rest) =>
      match skipSpace rest with
      | '.' :: more =>
        match key? fuel more with
        | some (parts, rest) => some (part :: parts, rest)
        | none => none
      | rest => some ([part], rest)

/-! ### Numbers -/

/-- Digits with single underscores between them, the underscores left out. -/
def digits? (isDigit : Char → Bool) : Nat → Reader (List Char)
  | 0, _ => none
  | _ + 1, [] => none
  | fuel + 1, c :: cs =>
    if isDigit c then
      match cs with
      | [] => some ([c], [])
      | d :: ds =>
        if isDigit d then (digits? isDigit fuel (d :: ds)).map fun r => (c :: r.1, r.2)
        else if d = '_' then (digits? isDigit fuel ds).map fun r => (c :: r.1, r.2)
        else some ([c], d :: ds)
    else none

/-- A sign, if there is one. -/
def sign (cs : List Char) : Bool × List Char :=
  match cs with
  | '+' :: cs => (false, cs)
  | '-' :: cs => (true, cs)
  | cs => (false, cs)

/-- An unsigned decimal integer: a single zero, or digits that do not begin with one. -/
def decimal? : Reader (List Char)
  | '0' :: cs => some (['0'], cs)
  | cs => digits? Char.isDigit (cs.length + 1) cs

/-- The value of digits in a base. -/
def digitsIn (base : Nat) (ds : List Char) : Nat :=
  ds.foldl (fun n c => base * n + (hexValue? c).getD 0) 0

/-- An integer in base 16, 8 or 2, after its mark. -/
def based? (base : Nat) (cs : List Char) : Option (Item × List Char) :=
  let isDigit (c : Char) : Bool := (hexValue? c).any (· < base)
  match digits? isDigit (cs.length + 1) cs with
  | some (ds, rest) =>
    let n := digitsIn base ds
    if n < 9223372036854775808 then some (.integer n, rest) else none
  | none => none

/-- A fraction, after its point. -/
def fraction? (cs : List Char) : Option (List Char × List Char) :=
  digits? Char.isDigit (cs.length + 1) cs

/-- An exponent, after its letter: an optional sign and digits. -/
def exponent? (cs : List Char) : Option (Int × List Char) :=
  let (negative, rest) := sign cs
  (digits? Char.isDigit (rest.length + 1) rest).map fun r =>
    let n : Int := Decimal.exponentValue r.1
    (if negative then -n else n, r.2)

/-- A float with these parts; a positive one beyond the largest finite number is refused. -/
def float? (negative : Bool) (whole fraction : List Char) (exponent : Int) (rest : List Char) :
    Option (Item × List Char) :=
  match (Decimal.ofParts whole fraction exponent).toBinary64 negative with
  | .infinite false => none
  | x => some (.float x, rest)

/-- An integer, or a float with its fraction or exponent, after the sign. -/
def unsigned? (negative : Bool) (cs : List Char) : Option (Item × List Char) :=
  match decimal? cs with
  | none => none
  | some (whole, rest) =>
    match rest with
    | '.' :: after =>
      match fraction? after with
      | none => none
      | some (fraction, rest) =>
        match rest with
        | c :: after =>
          if c = 'e' ∨ c = 'E' then
            (exponent? after).bind fun r => float? negative whole fraction r.1 r.2
          else float? negative whole fraction 0 rest
        | [] => float? negative whole fraction 0 []
    | c :: after =>
      if c = 'e' ∨ c = 'E' then (exponent? after).bind fun r => float? negative whole [] r.1 r.2
      else integer? negative whole rest
    | [] => integer? negative whole []
where
  /-- An integer of 64 bits. -/
  integer? (negative : Bool) (whole rest : List Char) : Option (Item × List Char) :=
    let n : Int := digitsIn 10 whole
    let i := if negative then -n else n
    if -9223372036854775808 ≤ i ∧ i < 9223372036854775808 then some (.integer i, rest) else none

/-- A number: an integer in any base, a float, infinity, or what is not a number. -/
def number? (cs : List Char) : Option (Item × List Char) :=
  match cs with
  | '0' :: 'x' :: cs => based? 16 cs
  | '0' :: 'o' :: cs => based? 8 cs
  | '0' :: 'b' :: cs => based? 2 cs
  | cs =>
    let (negative, rest) := sign cs
    match rest with
    | 'i' :: 'n' :: 'f' :: rest => some (.float (.infinite negative), rest)
    | 'n' :: 'a' :: 'n' :: rest => some (.float .nan, rest)
    | rest => unsigned? negative rest

/-! ### Dates and times -/

/-- A number of exactly `count` digits. -/
def fixed? (count : Nat) (cs : List Char) : Option (Nat × List Char) :=
  let ds := cs.take count
  if ds.length = count ∧ ds.all Char.isDigit then some (digitsIn 10 ds, cs.drop count) else none

/-- The number of days of a month. -/
def daysIn (year month : Nat) : Nat :=
  if month = 2 then
    if year % 4 = 0 ∧ (year % 100 ≠ 0 ∨ year % 400 = 0) then 29 else 28
  else if month = 4 ∨ month = 6 ∨ month = 9 ∨ month = 11 then 30
  else 31

/-- The text after a date, if a text begins with one. -/
def date? (cs : List Char) : Option (List Char) := do
  let (year, cs) ← fixed? 4 cs
  let (month, cs) ← fixed? 2 (← literally? ['-'] cs)
  let (day, cs) ← fixed? 2 (← literally? ['-'] cs)
  if 1 ≤ month ∧ month ≤ 12 ∧ 1 ≤ day ∧ day ≤ daysIn year month then some cs else none

/-- The text after the digits of a fraction of a second; a point has at least one after it. -/
def secondFraction? : List Char → Option (List Char)
  | '.' :: cs =>
    if (cs.head?.any Char.isDigit) then some (cs.dropWhile Char.isDigit) else none
  | cs => some cs

/-- The text after a time of day, if a text begins with one. -/
def time? (cs : List Char) : Option (List Char) := do
  let (hour, cs) ← fixed? 2 cs
  let (minute, cs) ← fixed? 2 (← literally? [':'] cs)
  let (second, cs) ← fixed? 2 (← literally? [':'] cs)
  if hour ≤ 23 ∧ minute ≤ 59 ∧ second ≤ 60 then secondFraction? cs else none

/-- The text after an offset from universal time; it may be missing. -/
def offset? : List Char → Option (List Char)
  | 'Z' :: cs => some cs
  | 'z' :: cs => some cs
  | c :: cs =>
    if c = '+' ∨ c = '-' then do
      let (hour, cs) ← fixed? 2 cs
      let (minute, cs) ← fixed? 2 (← literally? [':'] cs)
      if hour ≤ 23 ∧ minute ≤ 59 then some cs else none
    else some (c :: cs)
  | [] => some []

/-- The text after a date with an optional time, or after a time. -/
def afterDatetime? (cs : List Char) : Option (List Char) :=
  match date? cs with
  | some rest =>
    match rest with
    | c :: more =>
      if c = 'T' ∨ c = 't' ∨ c = ' ' then
        match time? more with
        | some rest => offset? rest
        | none => some rest
      else some rest
    | [] => some []
  | none => time? cs

/-- A date, a time, or both. -/
def datetime? (cs : List Char) : Option (Item × List Char) :=
  (afterDatetime? cs).map fun rest =>
    (.datetime (String.ofList (cs.take (cs.length - rest.length))), rest)

end Transclude.Toml
