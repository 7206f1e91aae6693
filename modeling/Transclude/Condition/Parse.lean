/-
From the tokens of a test to its tree.

The connectives bind as usual: `!` takes the whole comparison after it, `&&` binds tighter than `||`,
and both group to the left.  Comparisons do not chain.

* `ofTokens` — the tree of a token list, or the first token that cannot stand where it does;
* `parse` — the tree of a text.

Design notes: the tokens are read one by one.  A `Level` holds what is still waiting for an operand
between one pair of parentheses, and `Parser` the levels that are open.  What could stand in a place
follows from the state alone (`Parser.expected`), so every error is found at the first token that no
test can have there.
-/
import Transclude.Condition.Basic
import Transclude.Condition.Scan

namespace Transclude.Condition

/-- What one pair of parentheses, or the whole test, has read before the operand at hand. -/
structure Level where
  /-- The operands of `||` so far. -/
  disjuncts : Option Condition := none
  /-- The operands of `&&` so far. -/
  conjuncts : Option Condition := none
  /-- The negations in front of the comparison. -/
  negations : Nat := 0
  /-- The left side of a comparison. -/
  left : Option (Condition × Comparison) := none
  deriving DecidableEq

/-- A condition under a number of negations. -/
def negate : Nat → Condition → Condition
  | 0, c => c
  | n + 1, c => .not (negate n c)

namespace Level

/-- The negated comparison that ends with this operand. -/
def comparison (level : Level) (operand : Condition) : Condition :=
  negate level.negations <|
    match level.left with
    | some (l, op) => .compare op l operand
    | none => operand

/-- The conjunction that ends with this operand. -/
def conjunction (level : Level) (operand : Condition) : Condition :=
  match level.conjuncts with
  | some l => .and l (level.comparison operand)
  | none => level.comparison operand

/-- The disjunction that ends with this operand. -/
def disjunction (level : Level) (operand : Condition) : Condition :=
  match level.disjuncts with
  | some l => .or l (level.conjunction operand)
  | none => level.conjunction operand

end Level

/-- What the next token has to fit. -/
inductive Waiting where
  /-- An operand is missing. -/
  | operand
  /-- A segment is missing after the dot of a path. -/
  | segment (path : List String)
  /-- A path is complete, but may go on. -/
  | path (segments : List String)
  /-- Another operand is complete. -/
  | complete (operand : Condition)
  deriving DecidableEq

/-- A test that is read up to some token. -/
structure Parser where
  level : Level
  /-- The levels around it, innermost first. -/
  outer : List Level
  waiting : Waiting
  deriving DecidableEq

namespace Parser

/-- Before any token. -/
def start : Parser := ⟨{}, [], .operand⟩

/-- What could stand at the end of a complete operand. -/
def afterOperand (outer : List Level) : List Expectation :=
  [.token .and, .token .or, if outer.isEmpty then .endOfInput else .token .closing]

/-- The fixed tokens that could stand next. -/
def expected (p : Parser) : List Expectation :=
  match p.waiting with
  | .operand =>
    if p.level.left.isSome then [.token .opening] else [.token .not, .token .opening]
  | .segment _ => []
  | .path _ => .token .dot :: afterOperand p.outer
  | .complete _ => afterOperand p.outer

/-- Goes on after a complete operand. -/
def continue? (p : Parser) (operand : Condition) : Token → Option Parser
  | .compare op =>
    match p.level.left with
    | none => some { p with level := { p.level with left := some (operand, op) }, waiting := .operand }
    | some _ => none
  | .and =>
    some { p with
      level := { disjuncts := p.level.disjuncts, conjuncts := some (p.level.conjunction operand) }
      waiting := .operand }
  | .or =>
    some { p with
      level := { disjuncts := some (p.level.disjunction operand) }, waiting := .operand }
  | .closing =>
    match p.outer with
    | level :: outer => some ⟨level, outer, .complete (p.level.disjunction operand)⟩
    | [] => none
  | _ => none

/-- Reads one more token, if it can stand here. -/
def step? (p : Parser) (t : Token) : Option Parser :=
  match p.waiting with
  | .operand =>
    match t with
    | .literal l => some { p with waiting := .complete (.literal l) }
    | .ident name => some { p with waiting := .path [name] }
    | .opening => some ⟨{}, p.level :: p.outer, .operand⟩
    | .not =>
      if p.level.left.isSome then none
      else some { p with level := { p.level with negations := p.level.negations + 1 } }
    | _ => none
  | .segment segments =>
    match t with
    | .ident name => some { p with waiting := .path (segments ++ [name]) }
    | _ => none
  | .path segments =>
    match t with
    | .dot => some { p with waiting := .segment segments }
    | t => p.continue? (.path segments) t
  | .complete operand => p.continue? operand t

/-- The test, if it can end here. -/
def finish? (p : Parser) : Option Condition :=
  match p.outer, p.waiting with
  | [], .path segments => some (p.level.disjunction (.path segments))
  | [], .complete operand => some (p.level.disjunction operand)
  | _, _ => none

/-- A token that cannot stand where it does: how many tokens from it to the end there are, and what
could stand there. -/
structure Stuck where
  left : Nat
  expected : List Expectation
  deriving DecidableEq

/-- Reads tokens to their end. -/
def run (p : Parser) : List Token → Except Stuck Condition
  | [] =>
    match p.finish? with
    | some c => .ok c
    | none => .error ⟨0, p.expected⟩
  | t :: ts =>
    match p.step? t with
    | some p' => p'.run ts
    | none => .error ⟨(t :: ts).length, p.expected⟩

end Parser

/-- The test that a list of tokens writes. -/
def ofTokens (ts : List Token) : Except Parser.Stuck Condition := Parser.start.run ts

/-- Where the last token ends; without a token, where the text of `length` bytes does. -/
def lastStop (length : Nat) (placed : List Placed) : Nat :=
  match placed.getLast? with
  | some p => p.stop
  | none => length

/-- The error about a token that cannot stand where it does, in a text of `length` bytes.  If the text
ends too early, the span leads from its end back to the end of the last token. -/
def stuckError (length : Nat) (placed : List Placed) (stuck : Parser.Stuck) : SyntaxError :=
  match placed.drop (placed.length - stuck.left) with
  | p :: _ => ⟨p.start, p.stop, .unexpected (some p.token) stuck.expected⟩
  | [] => ⟨length, lastStop length placed, .unexpected none stuck.expected⟩

/-- The test that a text writes.  The whole text is split into tokens first. -/
def parse (text : List Char) : Except SyntaxError Condition :=
  match scan text with
  | .error e => .error e
  | .ok placed =>
    match ofTokens (placed.map Placed.token) with
    | .ok c => .ok c
    | .error stuck => .error (stuckError (Text.byteLength text) placed stuck)

end Transclude.Condition
