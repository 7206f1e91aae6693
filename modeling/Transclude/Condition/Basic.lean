/-
Tests as trees.

* `Condition` — a literal, a dotted path, a comparison or a connective;
* `Condition.tokens` — a tree written out with parentheses around every operand.
-/
import Transclude.Condition.Token

namespace Transclude

/-- A test. -/
inductive Condition where
  | literal (l : Condition.Literal)
  | path (segments : List String)
  | not (operand : Condition)
  | and (left right : Condition)
  | or (left right : Condition)
  | compare (op : Condition.Comparison) (left right : Condition)
  deriving DecidableEq

namespace Condition

/-- The tokens of a dotted path. -/
def pathTokens : List String → List Token
  | [] => []
  | [s] => [.ident s]
  | s :: t :: ss => .ident s :: .dot :: pathTokens (t :: ss)

/-- The tokens of a test with parentheses around every operand. -/
def tokens : Condition → List Token
  | literal l => [.literal l]
  | path segments => pathTokens segments
  | not c => .not :: .opening :: (c.tokens ++ [.closing])
  | and l r =>
    .opening :: (l.tokens ++ .closing :: .and :: .opening :: (r.tokens ++ [.closing]))
  | or l r =>
    .opening :: (l.tokens ++ .closing :: .or :: .opening :: (r.tokens ++ [.closing]))
  | compare op l r =>
    .opening :: (l.tokens ++ .closing :: .compare op :: .opening :: (r.tokens ++ [.closing]))

end Condition

end Transclude
