/-
Identifiers and what they name in a context.

The empty identifier names the whole context.  Any other identifier is first taken as a key; only if
no member has it, and it contains a dot, it is a path whose segments are walked one by one, through
objects by key and through arrays by index.

* `lookup?_nil` — the empty identifier names the context;
* `walk?_append` — a path is walked part by part.
-/
import Transclude.Text.Split
import Transclude.Value.Basic

namespace Transclude.Value

/-- The index that a segment writes: digits with an optional plus sign, below 2^64. -/
def index? (segment : List Char) : Option Nat :=
  let digits :=
    match segment with
    | '+' :: ds => ds
    | ds => ds
  if digits.isEmpty || !digits.all Char.isDigit then none
  else
    let n := digitsValue digits
    if n < 18446744073709551616 then some n else none

/-- The value one segment further down. -/
def step? : Value → List Char → Option Value
  | object ms, segment => member? (String.ofList segment) ms
  | array xs, segment => (index? segment).bind (xs[·]?)
  | _, _ => none

/-- The value at the end of a path. -/
def walk? (v : Value) : List (List Char) → Option Value
  | [] => some v
  | s :: ss => (v.step? s).bind (walk? · ss)

/-- The member of an object with this key; other values have no members. -/
def keyed? : Value → String → Option Value
  | object ms, key => member? key ms
  | _, _ => none

/-- What an identifier names in a context. -/
def lookup? (context : Value) (ident : List Char) : Option Value :=
  if ident = [] then some context
  else
    match context.keyed? (String.ofList ident) with
    | some v => some v
    | none => if '.' ∈ ident then context.walk? (Text.split '.' ident) else none

@[simp] theorem lookup?_nil (context : Value) : context.lookup? [] = some context := rfl

theorem walk?_append (v : Value) (a b : List (List Char)) :
    v.walk? (a ++ b) = (v.walk? a).bind (walk? · b) := by
  induction a generalizing v with
  | nil => rfl
  | cons s ss ih => cases h : v.step? s <;> simp [walk?, h, ih]

end Transclude.Value
