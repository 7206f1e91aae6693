/-
Configuration files in TOML: their values and tables.

A file is a table.  How a table came about decides what may still be added to it: a header opens a
table once, a dotted key extends only the tables that dotted keys made, and a table written in braces
is closed.

* `Table.extend?` — a change of the table at the end of a path of keys, which makes the tables that
  are missing on the way;
* `Table.get?` — the item of a key.
-/
import Transclude.Number.Decimal

namespace Transclude.Toml

/-- How a table came about. -/
inductive Form where
  /-- By a header of its own. -/
  | header
  /-- As a table on the way to a header. -/
  | implicit
  /-- By a dotted key. -/
  | dotted
  /-- In braces. -/
  | braces
  deriving DecidableEq

/-- What a key may hold. -/
inductive Item where
  | string (s : String)
  | integer (i : Int)
  | float (x : Binary64)
  | bool (b : Bool)
  | datetime (written : String)
  | array (items : List Item)
  | table (form : Form) (entries : List (String × Item))
  /-- A list of tables, each opened by a header in double brackets. -/
  | tables (all : List (List (String × Item)))

/-- The entries of a table, each key once, in the order of their first mention. -/
abbrev Table := List (String × Item)

instance : Inhabited Item := ⟨.bool false⟩

namespace Table

/-- The item of a key. -/
def get? (key : String) (t : Table) : Option Item :=
  (t.find? (fun e => e.1 == key)).map Prod.snd

/-- The table with an item for a key; it replaces the item that the key had. -/
def put (key : String) (item : Item) : Table → Table
  | [] => [(key, item)]
  | e :: es => if e.1 = key then (key, item) :: es else e :: put key item es

/-- The table without a key. -/
def erase (key : String) (t : Table) : Table := t.filter (fun e => e.1 != key)

/-- Adds a key that is not there yet. -/
def add? (key : String) (item : Item) (t : Table) : Option Table :=
  match t.get? key with
  | some _ => none
  | none => some (t.put key item)

/-- Changes the table at the end of a path, which is in a table of form `form`.  The change sees the
form of the table that it changes.  A path of dotted keys makes dotted tables and enters no table
that has a header or braces of its own; one of a header makes implicit ones. -/
def extend? (isDotted : Bool) (change : Form → Table → Option Table) :
    Form → List String → Table → Option Table
  | form, [], t => change form t
  | _, key :: path, t =>
    match t.get? key with
    | none =>
      let form : Form := if isDotted then .dotted else .implicit
      (extend? isDotted change form path []).map fun inner => t.put key (.table form inner)
    | some (.table form inner) =>
      if form = .braces ∨ (isDotted ∧ form = .header) then none
      else (extend? isDotted change form path inner).map fun inner => t.put key (.table form inner)
    | some (.tables all) =>
      match all.getLast? with
      | none => none
      | some last =>
        (extend? isDotted change .header path last).map fun inner =>
          t.put key (.tables (all.dropLast ++ [inner]))
    | some _ => none

/-- Adds a key with a path of dotted keys in front, in a table of form `form`.  What the path leads to
has to be a dotted table. -/
def addDotted? (form : Form) (path : List String) (key : String) (item : Item) (t : Table) :
    Option Table :=
  extend? true (fun reached inner =>
    if path ≠ [] ∧ reached ≠ .dotted then none else add? key item inner) form path t

end Table

end Transclude.Toml
