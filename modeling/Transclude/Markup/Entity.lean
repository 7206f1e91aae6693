/-
Entities in texts and attribute values.

A raw text holds five named entities and references to characters by number, decimal or, after an
`x`, hexadecimal.  Everything else stands for itself.

* `unescape` — the text that a raw text stands for, or the first thing wrong with it.
-/
import Transclude.Markup.Error
import Transclude.Text.Bytes
import Transclude.Number.Decimal

namespace Transclude.Markup

/-- The character of a named entity. -/
def namedEntity? : List Char → Option Char
  | ['l', 't'] => some '<'
  | ['g', 't'] => some '>'
  | ['a', 'm', 'p'] => some '&'
  | ['a', 'p', 'o', 's'] => some '\''
  | ['q', 'u', 'o', 't'] => some '"'
  | _ => none

/-- The value of a digit in either base. -/
def digit? (base : Nat) (c : Char) : Option Nat :=
  let value? : Option Nat :=
    if '0' ≤ c ∧ c ≤ '9' then some (c.toNat - '0'.toNat)
    else if 'a' ≤ c ∧ c ≤ 'f' then some (c.toNat - 'a'.toNat + 10)
    else if 'A' ≤ c ∧ c ≤ 'F' then some (c.toNat - 'A'.toNat + 10)
    else none
  value?.filter (· < base)

/-- The number that digits continue; it has to fit 32 bits. -/
def referenceCode (base : Nat) : Nat → List Char → Except ReferenceFault Nat
  | n, [] => .ok n
  | n, c :: cs =>
    match digit? base c with
    | none => .error .invalidDigit
    | some d =>
      if n * base + d < 4294967296 then referenceCode base (n * base + d) cs
      else .error .tooLarge

/-- The character of a reference by number, after its `#`. -/
def reference (cs : List Char) : Except ReferenceFault Char :=
  let (base, digits) :=
    match cs with
    | 'x' :: ds => (16, ds)
    | ds => (10, ds)
  match digits with
  | [] => .error .noDigits
  | '+' :: _ => .error .sign
  | '-' :: _ => .error .sign
  | ds =>
    match referenceCode base 0 ds with
    | .error e => .error e
    | .ok 0 => .error .zero
    | .ok code => if code.isValidChar then .ok (Char.ofNat code) else .error (.notACharacter code)

/-- The character that an entity stands for, between its `&` at byte `start` and its `;`. -/
def entity (start : Nat) (name : List Char) : Except EntityFault Char :=
  match name with
  | '#' :: cs =>
    match reference cs with
    | .ok c => .ok c
    | .error e => .error (.reference e)
  | name =>
    match namedEntity? name with
    | some c => .ok c
    | none =>
      .error (.unknown (start + 1) (start + 1 + Text.byteLength name) (String.ofList name))

/-- Where the reading of a raw text stands: between entities, or in the name of one that began at
some byte; the name is kept with its last character first. -/
inductive EntityReading where
  | plain
  | name (start : Nat) (read : List Char)

/-- The text that a raw text stands for, from byte `position` on, where `length` is its end. -/
def unescapeFrom (length : Nat) : EntityReading → Nat → List Char → Except EntityFault (List Char)
  | .plain, _, [] => .ok []
  | .name start _, _, [] => .error (.unterminated start length)
  | .plain, position, c :: cs =>
    if c = '&' then unescapeFrom length (.name position []) (position + 1) cs
    else (unescapeFrom length .plain (position + c.utf8Size) cs).map (c :: ·)
  | .name start read, position, c :: cs =>
    if c = '&' then .error (.unterminated start length)
    else if c = ';' then
      match entity start read.reverse with
      | .error e => .error e
      | .ok d => (unescapeFrom length .plain (position + 1) cs).map (d :: ·)
    else unescapeFrom length (.name start (c :: read)) (position + c.utf8Size) cs

/-- The text that a raw text stands for. -/
def unescape (raw : List Char) : Except EntityFault (List Char) :=
  unescapeFrom (Text.byteLength raw) .plain 0 raw

end Transclude.Markup
