/-
Functions as lists of commands.

A script is the function that runs its commands on an element, one after the other.  It can bind
further scripts to events of the element and dispatch events on it, so running one may run others,
nested to any depth, and need not end.

* `Script.run?` — a run in which calls nest at most `fuel` deep;
* `Script.dispatchBy?` — the scripts that are bound to an event before it, each once, in order.
-/
import Transclude.Interpolation
import Transclude.Owner

namespace Transclude

/-- A command on an element, in a call with some payload. -/
inductive Command where
  | setAttribute (name value : String)
  /-- Sets an attribute to the JSON text of the payload. -/
  | setPayload (name : String)
  /-- Sets an attribute to the number of child elements. -/
  | setCount (name : String)
  /-- Sets an attribute to the text below the element. -/
  | setTextContent (name : String)
  | removeAttribute (name : String)
  | appendText (text : String)
  /-- Appends a text with the placeholders that the payload resolves. -/
  | appendInterpolated (text : String)
  /-- Appends a tree whose bound functions do nothing. -/
  | appendElement (tree : Output.Element Unit)
  | bind (event function : String) (commands : List Command)
  | dispatch (event : String) (payload : Value)

/-- A function on elements. -/
abbrev Script := List Command

namespace Script

/-- What a run leaves: the element, and the calls of other scripts. -/
abbrev Outcome := Output.Element Script × List (Call Script)

/-- Runs bound scripts on an element, one after the other. -/
def runBindings (run? : Script → Value → Output.Element Script → Option Outcome)
    (payload : Value) : List (Output.Binding Script) → Output.Element Script → Option Outcome
  | [], e => some (e, [])
  | b :: bs, e => do
    let (e', calls) ← run? b.callback payload e
    let (e'', later) ← runBindings run? payload bs e'
    return (e'', ⟨b.function, e, payload⟩ :: calls ++ later)

/-- Dispatches an event, where `run?` runs the scripts bound to it: those bound before it run once
each, in order.  The number says how many. -/
def dispatchBy? (run? : Script → Value → Output.Element Script → Option Outcome) (event : String)
    (payload : Value) (e : Output.Element Script) : Option (Outcome × Nat) :=
  (runBindings run? payload (e.boundTo event) e).map fun r => (r, (e.boundTo event).length)

/-- Runs the commands of a script on an element, where `run?` runs the scripts bound to it. -/
def runCommands (run? : Script → Value → Output.Element Script → Option Outcome)
    (payload : Value) : Script → Output.Element Script → Option Outcome
  | [], e => some (e, [])
  | .setAttribute name value :: cs, e => runCommands run? payload cs (e.setAttribute name value)
  | .setPayload name :: cs, e =>
    runCommands run? payload cs (e.setAttribute name payload.toJson)
  | .setCount name :: cs, e =>
    runCommands run? payload cs (e.setAttribute name (toString e.childElements.length))
  | .setTextContent name :: cs, e =>
    runCommands run? payload cs (e.setAttribute name e.textContent)
  | .removeAttribute name :: cs, e => runCommands run? payload cs (e.removeAttribute name)
  | .appendText text :: cs, e => runCommands run? payload cs (e.append (.text text))
  | .appendInterpolated text :: cs, e =>
    runCommands run? payload cs (e.append (.text (Interpolation.interpolate text payload)))
  | .appendElement tree :: cs, e =>
    runCommands run? payload cs (e.append (.element (tree.mapCallbacks fun _ => [])))
  | .bind event function commands :: cs, e =>
    runCommands run? payload cs (e.bind event function commands)
  | .dispatch event argument :: cs, e => do
    let ((e', calls), _) ← dispatchBy? run? event argument e
    let (e'', later) ← runCommands run? payload cs e'
    return (e'', calls ++ later)

/-- Runs a script in which calls nest at most `fuel` deep; `none` if they nest deeper. -/
def run? : Nat → Script → Value → Output.Element Script → Option Outcome
  | 0, _, _, _ => none
  | fuel + 1, script, payload, e => runCommands (run? fuel) payload script e

/-- Dispatches an event to scripts in which calls nest at most `fuel` deep. -/
def dispatch? (fuel : Nat) (event : String) (payload : Value) (e : Output.Element Script) :
    Option (Outcome × Nat) :=
  dispatchBy? (run? fuel) event payload e

/-- How deep calls may nest. -/
def nesting : Nat := 10000

/-- Runs a script; one whose calls nest too deeply does nothing. -/
def run (script : Script) (payload : Value) (e : Output.Element Script) : Outcome :=
  (run? nesting script payload e).getD (e, [])

/-- An owner of scripts. -/
def owner (functions : List (String × Script)) : Owner Script where
  functions := functions.foldl (fun fs f => Owner.put f.1 f.2 fs) []
  run := run

end Script

end Transclude
