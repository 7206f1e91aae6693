/-
From the text of a configuration file to its table.

* `parse?` — the table of a file; `none` if it is malformed or defines something twice;
* `Document.open?`, `Document.assign?` — what a header and a line with a key do.

Design notes: arrays and tables in braces nest at most 79 deep, and dotted keys have at most 79 parts.
The entries under a header are put into the table of the file when the next header begins.
-/
import Transclude.Toml.Scalar

namespace Transclude.Toml

/-- How deep arrays and tables in braces may nest, and how many parts a dotted key may have. -/
def nesting : Nat := 79

/-- A comment, if there is one, up to the end of its line. -/
def skipComment : List Char → List Char
  | '#' :: cs => cs.dropWhile isPlain
  | cs => cs

/-- The rest of a line that is over but for blanks and a comment; the text may end here. -/
def lineEnd? (cs : List Char) : Option (List Char) :=
  match skipComment (skipSpace cs) with
  | [] => some []
  | rest => newline? rest

/-- Blanks, line breaks and comments between the items of an array. -/
def skipBlank : Nat → List Char → Option (List Char)
  | 0, _ => none
  | fuel + 1, cs =>
    match skipSpace cs with
    | '#' :: rest =>
      match newline? (rest.dropWhile isPlain) with
      | some rest => skipBlank fuel rest
      | none => none
    | rest =>
      match newline? rest with
      | some rest => skipBlank fuel rest
      | none => some rest

/-- A key of bounded length. -/
def boundedKey? (cs : List Char) : Option (List String × List Char) :=
  match key? (cs.length + 1) cs with
  | some (parts, rest) => if parts.length ≤ nesting then some (parts, rest) else none
  | none => none

/-- A value that is neither an array nor a table. -/
def scalar? (cs : List Char) : Option (Item × List Char) :=
  match cs with
  | [] => none
  | c :: _ =>
    if c = '"' ∨ c = '\'' then (string? cs).map fun r => (.string r.1, r.2)
    else if c.isDigit ∨ c = '+' ∨ c = '-' then
      match datetime? cs with
      | some r => some r
      | none => number? cs
    else
      match cs with
      | 't' :: 'r' :: 'u' :: 'e' :: rest => some (.bool true, rest)
      | 'f' :: 'a' :: 'l' :: 's' :: 'e' :: rest => some (.bool false, rest)
      | 'i' :: 'n' :: 'f' :: rest => some (.float (.infinite false), rest)
      | 'n' :: 'a' :: 'n' :: rest => some (.float .nan, rest)
      | _ => none

/-- The items of an array, after its bracket; `value?` reads one. -/
def items? (value? : Reader Item) : Nat → List Item → Reader (List Item)
  | 0, _, _ => none
  | fuel + 1, read, cs =>
    match skipBlank (cs.length + 1) cs with
    | none => none
    | some (']' :: rest) => some (read.reverse, rest)
    | some rest =>
      match value? rest with
      | none => none
      | some (item, rest) =>
        match skipBlank (rest.length + 1) rest with
        | some (',' :: rest) => items? value? fuel (item :: read) rest
        | some (']' :: rest) => some ((item :: read).reverse, rest)
        | _ => none

/-- The entries of a table in braces, after its brace or a comma; `value?` reads one value. -/
def entries? (value? : Reader Item) : Nat → Table → Reader Table
  | 0, _, _ => none
  | fuel + 1, read, cs =>
    match boundedKey? cs with
    | none => none
    | some (parts, '=' :: rest) =>
      match value? (skipSpace rest) with
      | none => none
      | some (item, rest) =>
        match read.addDotted? .braces parts.dropLast (parts.getLast?.getD "") item with
        | none => none
        | some read =>
          match skipSpace rest with
          | ',' :: rest => entries? value? fuel read rest
          | '}' :: rest => some (read, rest)
          | _ => none
    | some _ => none

/-- A table in braces, after its brace. -/
def braces? (value? : Reader Item) (cs : List Char) : Option (Item × List Char) :=
  match skipSpace cs with
  | '}' :: rest => some (.table .braces [], rest)
  | _ => (entries? value? (cs.length + 1) [] cs).map fun r => (.table .braces r.1, r.2)

/-- A value in which `depth` more arrays and tables may nest. -/
def value? : Nat → Reader Item
  | 0, '[' :: _ => none
  | 0, '{' :: _ => none
  | 0, cs => scalar? cs
  | depth + 1, '[' :: cs =>
    (items? (value? depth) (cs.length + 1) [] cs).map fun r => (.array r.1, r.2)
  | depth + 1, '{' :: cs => braces? (value? depth) cs
  | _ + 1, cs => scalar? cs

/-! ### Tables -/

/-- A file that is read up to some line. -/
structure Document where
  /-- The table of the file without the entries under the last header. -/
  root : Table
  /-- The last header, and whether it is in double brackets. -/
  path : List String
  isList : Bool
  /-- The entries under the last header. -/
  current : Table

namespace Document

/-- Before any line. -/
def start : Document := ⟨[], [], false, []⟩

/-- The table of the file with the entries under the last header. -/
def close? (d : Document) : Option Table :=
  match d.path.getLast? with
  | none => some d.current
  | some key =>
    Table.extend? false (fun _ parent =>
      if d.isList then
        match parent.get? key with
        | none => some (parent.put key (.tables [d.current]))
        | some (.tables all) => some (parent.put key (.tables (all ++ [d.current])))
        | some _ => none
      else parent.add? key (.table .header d.current)) .header d.path.dropLast d.root

/-- The entries that a header begins with: those of a table that so far was only on the way to other
headers.  Any other item of its key is in the way. -/
def existing? (parent : Table) (key : String) : Option Table :=
  match parent.get? key with
  | none => some []
  | some (.table .implicit entries) => some entries
  | some _ => none

/-- The item at the end of a path, in a table. -/
def itemAt? : List String → Table → Option Item
  | [], _ => none
  | [key], t => t.get? key
  | key :: next :: path, t =>
    match t.get? key with
    | some (.table _ inner) => itemAt? (next :: path) inner
    | some (.tables all) => (all.getLast?).bind (itemAt? (next :: path))
    | _ => none

/-- The entries of an implicit table. -/
def implicitEntries : Option Item → Table
  | some (.table .implicit entries) => entries
  | _ => []

/-- Begins a header. -/
def open? (d : Document) (path : List String) (isList : Bool) : Option Document := do
  let root ← d.close?
  let key ← path.getLast?
  if isList then
    let root ← Table.extend? false (fun _ parent =>
      match parent.get? key with
      | none => some (parent.put key (.tables []))
      | some (.tables _) => some parent
      | some _ => none) .header path.dropLast root
    return ⟨root, path, true, []⟩
  else
    let root' ← Table.extend? false (fun _ parent =>
      (existing? parent key).map fun _ => parent.erase key) .header path.dropLast root
    return ⟨root', path, false, implicitEntries (itemAt? path root)⟩

/-- Adds a line with a key. -/
def assign? (d : Document) (parts : List String) (item : Item) : Option Document :=
  (d.current.addDotted? .header parts.dropLast (parts.getLast?.getD "") item).map fun current =>
    { d with current := current }

end Document

/-! ### Lines -/

/-- A header, after its bracket. -/
def header? (d : Document) (cs : List Char) : Option (Document × List Char) :=
  match cs with
  | '[' :: cs => do
    let (path, rest) ← boundedKey? cs
    let rest ← lineEnd? (← literally? [']', ']'] rest)
    return (← d.open? path true, rest)
  | cs => do
    let (path, rest) ← boundedKey? cs
    let rest ← lineEnd? (← literally? [']'] rest)
    return (← d.open? path false, rest)

/-- A line with a key. -/
def assignment? (d : Document) (cs : List Char) : Option (Document × List Char) := do
  let (parts, rest) ← boundedKey? cs
  let (item, rest) ← value? nesting (skipSpace (← literally? ['='] rest))
  let rest ← lineEnd? rest
  return (← d.assign? parts item, rest)

/-- The lines of a file. -/
def lines? : Nat → Document → List Char → Option Document
  | 0, _, _ => none
  | fuel + 1, d, cs =>
    match skipSpace cs with
    | [] => some d
    | '#' :: rest => (lineEnd? ('#' :: rest)).bind (lines? fuel d)
    | '[' :: rest => (header? d rest).bind fun r => lines? fuel r.1 r.2
    | rest =>
      match newline? rest with
      | some rest => lines? fuel d rest
      | none => (assignment? d rest).bind fun r => lines? fuel r.1 r.2

/-- The table of a file, a byte order mark aside. -/
def parse? (text : String) : Option Table :=
  let cs :=
    match text.toList with
    | [] => []
    | c :: cs => if c = '\uFEFF' then cs else c :: cs
  (lines? (cs.length + 1) .start cs).bind Document.close?

end Transclude.Toml
