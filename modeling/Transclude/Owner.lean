/-
The owner of a template.

A template reaches functions only by the names that its owner gives them.  A function takes an
element and a value and gives the element back, changed or not; what it calls in turn is recorded.

* `Owner.call?` — a call by name, recorded with the element as it was;
* `Call` — a record of a call.
-/
import Transclude.Output.Element
import Transclude.Text.Debug
import Transclude.Text.Sort

namespace Transclude

/-- A call of a function: the name it was called by, the element before the call, and the value. -/
structure Call (κ : Type) where
  function : String
  element : Output.Element κ
  payload : Value

/-- The functions that a template may call, each name once, and what they do. -/
structure Owner (κ : Type) where
  functions : List (String × κ) := []
  run : κ → Value → Output.Element κ → Output.Element κ × List (Call κ)

namespace Owner

variable {κ : Type}

/-- The functions with one more; it replaces a function of its name. -/
def put (name : String) (f : κ) : List (String × κ) → List (String × κ)
  | [] => [(name, f)]
  | e :: es => if e.1 = name then (name, f) :: es else e :: put name f es

/-- The owner with a function under a name. -/
def insert (o : Owner κ) (name : String) (f : κ) : Owner κ :=
  { o with functions := put name f o.functions }

/-- The function of a name. -/
def get? (o : Owner κ) (name : String) : Option κ :=
  (o.functions.find? (fun e => e.1 == name)).map Prod.snd

/-- The names of the functions, sorted. -/
def names (o : Owner κ) : List String := Text.sort (o.functions.map Prod.fst)

/-- The owner as messages show it. -/
def debugText (o : Owner κ) : String :=
  "Owner \x7b functions: " ++ Text.debugList o.names ++ " \x7d"

/-- An owner without functions. -/
def none : Owner κ := ⟨[], fun _ _ e => (e, [])⟩

/-- Calls a function on an element, if the owner has it. -/
def call? (o : Owner κ) (name : String) (payload : Value) (e : Output.Element κ) :
    Option (Output.Element κ × List (Call κ)) :=
  (o.get? name).map fun f =>
    let (e', calls) := o.run f payload e
    (e', ⟨name, e, payload⟩ :: calls)

end Owner

end Transclude
