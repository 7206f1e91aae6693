/-
What can go wrong with a test.

* `SyntaxError` — a span of the test and what is wrong there;
* `Error` — a syntax error, an ordering of values without a common order, or a connective on a value
  that is not a boolean;
* `Error.message` — the wording of all of them.
-/
import Transclude.Condition.Token
import Transclude.Value.Basic

namespace Transclude.Condition

/-- What could stand where a token is wrong. -/
inductive Expectation where
  | token (t : Token)
  | endOfInput
  deriving DecidableEq

/-- An expectation as messages name it. -/
def Expectation.describe : Expectation → String
  | token t => t.describe
  | endOfInput => "end of input"

/-- What is wrong with the text of a test. -/
inductive SyntaxFault where
  /-- A text that begins no token. -/
  | unexpectedText (text : String)
  /-- A token, or the end of the test, where only other tokens can stand. -/
  | unexpected (found : Option Token) (expected : List Expectation)
  deriving DecidableEq

/-- A fault in the text of a test, between two byte offsets. -/
structure SyntaxError where
  start : Nat
  stop : Nat
  fault : SyntaxFault
  deriving DecidableEq

/-- The connectives, which take booleans only. -/
inductive Connective where
  | not
  | and
  | or
  deriving DecidableEq

/-- The symbol of a connective. -/
def Connective.symbol : Connective → String
  | not => "!"
  | and => "&&"
  | or => "||"

/-- Why a test has no value. -/
inductive Error where
  | malformed (e : SyntaxError)
  | incomparable (op : Comparison) (left right : Value.Kind)
  | notBoolean (op : Connective) (found : Value.Kind)
  deriving DecidableEq

/-- The wording of a fault. -/
def SyntaxFault.message : SyntaxFault → String
  | unexpectedText text => "Unexpected character " ++ inQuotes text
  | unexpected found expected =>
    let what :=
      match found with
      | some t => t.describe
      | none => "end of input"
    let list :=
      if expected.isEmpty then ""
      else ", expected " ++ String.intercalate " or " (expected.map Expectation.describe)
    "Unexpected " ++ what ++ list

/-- The wording of an error. -/
def Error.message : Error → String
  | malformed e =>
    "syntax error at " ++ toString e.start ++ ".." ++ toString e.stop ++ ": " ++ e.fault.message
  | incomparable op left right =>
    "cannot compare " ++ left.name ++ " " ++ op.symbol ++ " " ++ right.name
  | notBoolean op found =>
    inQuotes op.symbol ++ " expects boolean operands, found " ++ found.name

/-- The span of an error in the test; only syntax errors have one. -/
def Error.span? : Error → Option (Nat × Nat)
  | malformed e => some (e.start, e.stop)
  | _ => none

end Transclude.Condition
