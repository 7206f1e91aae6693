/-
The settings of imports and productions.

* `Config` — the reserved namespace, the limit of nested insertions, and whether output is indented;
  the defaults are `dht`, 64 and no indentation;
* `Config.ofToml?` — the settings that a configuration file gives.
-/
import Transclude.Namespace
import Transclude.Toml.Document

namespace Transclude

/-- The settings that an import and a production share. -/
structure Config where
  /-- The name of the reserved namespace. -/
  vocabulary : String := "dht"
  /-- How deep insertions of snippets may nest. -/
  maxDepth : Nat := 64
  /-- Whether produced trees are written with indentation. -/
  indented : Bool := false
  deriving DecidableEq

namespace Config

/-- The reserved namespace. -/
def reserved (config : Config) : Namespace := ⟨config.vocabulary⟩

/-- A setting of a file, or its default if the file does not give it; `none` if it gives an item of
another kind. -/
def setting? {α : Type} (table : Toml.Table) (key : String) (default : α)
    (read? : Toml.Item → Option α) : Option α :=
  match table.get? key with
  | none => some default
  | some item => read? item

/-- The settings in the table of a configuration file; other keys are ignored. -/
def ofTable? (table : Toml.Table) : Option Config := do
  let base : Config := {}
  let vocabulary ← setting? table "namespace" base.vocabulary fun
    | .string s => some s
    | _ => none
  let maxDepth ← setting? table "max_depth" base.maxDepth fun
    | .integer i => if 0 ≤ i then some i.toNat else none
    | _ => none
  let indented ← setting? table "pretty_print" base.indented fun
    | .bool b => some b
    | _ => none
  return ⟨vocabulary, maxDepth, indented⟩

/-- The settings that a configuration file gives; `none` if it is malformed. -/
def ofToml? (text : String) : Option Config := (Toml.parse? text).bind ofTable?

end Config

end Transclude
