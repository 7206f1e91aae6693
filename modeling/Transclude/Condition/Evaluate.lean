/-
The value of a test in a context.

A path that names nothing has the value null.  The connectives take booleans only and look at their
right operand only if the left one does not decide.  Numbers compare numerically, also with strings
that write a number; other values are equal when they are the same, and strings are ordered by their
characters.

* `evaluate` — the value of a test;
* `holds` — whether a text is a test whose value is `true`; any other value counts as false.
-/
import Transclude.Condition.Parse
import Transclude.Text.Blank
import Transclude.Value.Lookup

namespace Transclude.Condition

/-- The value of a literal. -/
def Literal.value : Literal → Value
  | number x => .ofBinary64 x
  | string s => .string s
  | bool b => .bool b
  | null => .null

/-- The number that a string writes, blanks around it aside. -/
def numeric? (s : String) : Option Binary64 := Binary64.ofText? (Text.trim s.toList)

/-- Whether a number equals the number that a string writes. -/
def equalsText (n : Number) (s : String) : Bool :=
  match numeric? s with
  | some x => x.numericEq n.toBinary64
  | none => false

/-- Equality of values in a test. -/
def looselyEqual : Value → Value → Bool
  | .number m, .number n => m.toBinary64.numericEq n.toBinary64
  | .number n, .string s => equalsText n s
  | .string s, .number n => equalsText n s
  | v, w => v.same w

/-- A number, or the number that a string writes. -/
def number? : Value → Option Binary64
  | .number n => some n.toBinary64
  | .string s => numeric? s
  | _ => none

/-- The ordering of two values, if they have one. -/
def order? (left right : Value) : Option Ordering :=
  match left, right with
  | .string s, .string t => some (Ord.compare s t)
  | _, _ =>
    match number? left, number? right with
    | some x, some y => x.compare? y
    | _, _ => none

/-- Whether an ordering satisfies a comparison. -/
def Comparison.holds : Comparison → Ordering → Bool
  | equal, o => o == .eq
  | notEqual, o => o != .eq
  | less, o => o == .lt
  | lessOrEqual, o => o != .gt
  | greater, o => o == .gt
  | greaterOrEqual, o => o != .lt

/-- The outcome of a comparison of values. -/
def compareValues (op : Comparison) (left right : Value) : Except Error Bool :=
  match op with
  | .equal => .ok (looselyEqual left right)
  | .notEqual => .ok (!looselyEqual left right)
  | op =>
    match order? left right with
    | some o => .ok (op.holds o)
    | none => .error (.incomparable op left.kind right.kind)

/-- The boolean that a connective takes. -/
def expectBool (op : Connective) : Value → Except Error Bool
  | .bool b => .ok b
  | v => .error (.notBoolean op v.kind)

/-- The identifier of a path. -/
def pathIdent (segments : List String) : List Char := Text.join '.' (segments.map String.toList)

/-- The value of a test in a context. -/
def evaluate (context : Value) : Condition → Except Error Value
  | literal l => .ok l.value
  | path segments => .ok ((context.lookup? (pathIdent segments)).getD .null)
  | not c => do
    let b ← expectBool .not (← evaluate context c)
    return .bool !b
  | and l r => do
    let b ← expectBool .and (← evaluate context l)
    if b then
      let b ← expectBool .and (← evaluate context r)
      return .bool b
    else return .bool false
  | or l r => do
    let b ← expectBool .or (← evaluate context l)
    if b then return .bool true
    else
      let b ← expectBool .or (← evaluate context r)
      return .bool b
  | compare op l r => do
    let v ← evaluate context l
    let w ← evaluate context r
    return .bool (← compareValues op v w)

/-- The value of the test that a text writes. -/
def evaluateText (text : List Char) (context : Value) : Except Error Value :=
  match parse text with
  | .error e => .error (.malformed e)
  | .ok c => evaluate context c

/-- Whether a text is a test with the value `true`. -/
def holds (text : List Char) (context : Value) : Except Error Bool :=
  match evaluateText text context with
  | .error e => .error e
  | .ok (.bool b) => .ok b
  | .ok _ => .ok false

end Transclude.Condition
