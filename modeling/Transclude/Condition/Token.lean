/-
Tokens of tests.

A test is a small expression in the attribute of a conditional: literals, dotted paths, comparisons
and the connectives `!`, `&&` and `||`, each with a spelled-out form.  All spellings of an operator
are one token.

* `Token` — what a test is made of;
* `Token.describe` — a token as messages name it.
-/
import Transclude.Number.Decimal

namespace Transclude

/-- Numbers in messages about tests: positional, with the fewest digits; of two equally near decimals
the upper one, and no mark on whole numbers. -/
def Binary64.plainLayout : Layout := ⟨.up, none, false⟩

/-- The text of a number in messages about tests. -/
def Binary64.plainText : Binary64 → String
  | .finite x => String.ofList (Binary64.plainLayout.write x)
  | .infinite false => "inf"
  | .infinite true => "-inf"
  | .nan => "NaN"

namespace Condition

/-- A literal of a test. -/
inductive Literal where
  | number (x : Binary64)
  | string (s : String)
  | bool (b : Bool)
  | null
  deriving DecidableEq

/-- The comparisons of a test. -/
inductive Comparison where
  | equal
  | notEqual
  | less
  | lessOrEqual
  | greater
  | greaterOrEqual
  deriving DecidableEq

/-- The symbol of a comparison. -/
def Comparison.symbol : Comparison → String
  | equal => "="
  | notEqual => "!="
  | less => "<"
  | lessOrEqual => "<="
  | greater => ">"
  | greaterOrEqual => ">="

/-- A token of a test. -/
inductive Token where
  | literal (l : Literal)
  | ident (name : String)
  | and
  | or
  | not
  | compare (op : Comparison)
  | opening
  | closing
  | dot
  deriving DecidableEq

/-- A text in single quotes, as it is. -/
def inQuotes (s : String) : String := "'" ++ s ++ "'"

/-- A token as messages name it. -/
def Token.describe : Token → String
  | literal (.number x) => "number " ++ x.plainText
  | literal (.string s) => "string " ++ inQuotes s
  | literal (.bool true) => inQuotes "true"
  | literal (.bool false) => inQuotes "false"
  | literal .null => inQuotes "null"
  | ident name => "identifier " ++ inQuotes name
  | and => inQuotes "&&"
  | or => inQuotes "||"
  | not => inQuotes "!"
  | compare op => inQuotes op.symbol
  | opening => inQuotes "("
  | closing => inQuotes ")"
  | dot => inQuotes "."

end Condition

end Transclude
