/-
From the text of a test to its tokens.

The text is read character by character.  `Reading` says what the characters since the start of a
lexeme can still become, so the longest lexeme wins; a character that does not continue it ends it
and begins the next one.

* `scan` — the tokens of a text with their spans, or the first place where no token begins;
* `Scanner.feed_append` — a text can be read piece by piece;
* `Reading.next?` — what continues a lexeme.

Design notes: a word is a keyword only as a whole.  A number takes a point only if a digit follows,
so `1.a` is a number, a dot and a word.  In a string literal a backslash takes any character after it
but a line feed; a literal that cannot be closed is reported from its quotation mark to the last
character that belongs to it.
-/
import Transclude.Condition.Error
import Transclude.Text.Bytes

namespace Transclude.Condition

/-- A token and the byte offsets of its lexeme. -/
structure Placed where
  token : Token
  start : Nat
  stop : Nat
  deriving DecidableEq

/-- A place in a text between two byte offsets. -/
structure Span where
  start : Nat
  stop : Nat
  deriving DecidableEq

/-- The blanks between tokens. -/
def isSpace (c : Char) : Bool := c = ' ' || c = '\t' || c = '\n' || c = '\r'

/-- A letter or an underscore, of ASCII. -/
def isWordStart (c : Char) : Bool := c.isAlpha || c = '_'

/-- What a word goes on with: also digits and dashes. -/
def isWordChar (c : Char) : Bool := c.isAlphanum || c = '_' || c = '-'

/-- What is being read; texts are kept with their last character first. -/
inductive Reading where
  | blank
  | word (read : List Char)
  | minus
  | whole (read : List Char)
  | point (read : List Char)
  | fraction (read : List Char)
  | quoted (quote : Char) (content : List Char) (escaped : Bool)
  | ampersand
  | bar
  | bang
  | bangEqual
  | equal
  | equalEqual
  | less
  | greater
  deriving DecidableEq

/-- The token of a word: a keyword or an identifier. -/
def wordToken (word : List Char) : Token :=
  match String.ofList word with
  | "true" => .literal (.bool true)
  | "false" => .literal (.bool false)
  | "null" => .literal .null
  | "and" => .and
  | "or" => .or
  | "not" => .not
  | name => .ident name

/-- The number that a lexeme of digits, an optional minus and an optional fraction writes. -/
def numberToken (lexeme : List Char) : Token :=
  .literal (.number ((Binary64.ofText? lexeme).getD .nan))

/-- The character that an escape in a string literal stands for. -/
def unescape (c : Char) : Char :=
  if c = 'n' then '\n' else if c = 't' then '\t' else c

/-- What a character does to the lexeme it continues. -/
inductive Move where
  /-- It goes on. -/
  | more (reading : Reading)
  /-- It ends with this character. -/
  | done (token : Token)
  /-- It can no longer end. -/
  | broken

/-- What a character does to a lexeme; `none` if it does not belong to it. -/
def Reading.next? : Reading → Char → Option Move
  | word read, c => if isWordChar c then some (.more (word (c :: read))) else none
  | minus, c => if c.isDigit then some (.more (whole [c, '-'])) else none
  | whole read, c =>
    if c.isDigit then some (.more (whole (c :: read)))
    else if c = '.' then some (.more (point read))
    else none
  | point read, c => if c.isDigit then some (.more (fraction (c :: '.' :: read))) else none
  | fraction read, c => if c.isDigit then some (.more (fraction (c :: read))) else none
  | quoted quote content true, c =>
    if c = '\n' then some .broken else some (.more (quoted quote (unescape c :: content) false))
  | quoted quote content false, c =>
    if c = '\\' then some (.more (quoted quote content true))
    else if c = quote then some (.done (.literal (.string (String.ofList content.reverse))))
    else some (.more (quoted quote (c :: content) false))
  | ampersand, c => if c = '&' then some (.done .and) else none
  | bar, c => if c = '|' then some (.done .or) else none
  | bang, c => if c = '=' then some (.more bangEqual) else none
  | bangEqual, c => if c = '=' then some (.done (.compare .notEqual)) else none
  | equal, c => if c = '=' then some (.more equalEqual) else none
  | equalEqual, c => if c = '=' then some (.done (.compare .equal)) else none
  | less, c => if c = '=' then some (.done (.compare .lessOrEqual)) else none
  | greater, c => if c = '=' then some (.done (.compare .greaterOrEqual)) else none
  | blank, _ => none

/-- Where the scanner stands: the lexeme it reads, where that began, and how far it is. -/
structure Scanner where
  start : Nat
  position : Nat
  reading : Reading
  deriving DecidableEq

/-- The scanner between lexemes. -/
def Scanner.between (position : Nat) : Scanner := ⟨position, position, .blank⟩

/-- The tokens of a lexeme that ends where the scanner stands; a number whose point no digit follows
is two of them. -/
def Scanner.flush (s : Scanner) : Except Span (List Placed) :=
  let one (t : Token) : Except Span (List Placed) := .ok [⟨t, s.start, s.position⟩]
  match s.reading with
  | .blank => .ok []
  | .word read => one (wordToken read.reverse)
  | .minus => .error ⟨s.start, s.position⟩
  | .whole read => one (numberToken read.reverse)
  | .point read =>
    .ok [⟨numberToken read.reverse, s.start, s.position - 1⟩, ⟨.dot, s.position - 1, s.position⟩]
  | .fraction read => one (numberToken read.reverse)
  | .quoted _ _ false => .error ⟨s.start, s.position⟩
  | .quoted _ _ true => .error ⟨s.start, s.position - 1⟩
  | .ampersand => .error ⟨s.start, s.position⟩
  | .bar => .error ⟨s.start, s.position⟩
  | .bang => one .not
  | .bangEqual => one (.compare .notEqual)
  | .equal => one (.compare .equal)
  | .equalEqual => one (.compare .equal)
  | .less => one (.compare .less)
  | .greater => one (.compare .greater)

/-- A character between lexemes. -/
inductive Beginning where
  /-- It belongs to none. -/
  | blank
  /-- It is a lexeme of its own. -/
  | single (token : Token)
  /-- It begins one. -/
  | first (reading : Reading)
  /-- It begins none. -/
  | none

/-- What a character between lexemes begins. -/
def beginning (c : Char) : Beginning :=
  if isSpace c then .blank
  else if isWordStart c then .first (.word [c])
  else if c.isDigit then .first (.whole [c])
  else
    match c with
    | '-' => .first .minus
    | '"' => .first (.quoted '"' [] false)
    | '\'' => .first (.quoted '\'' [] false)
    | '&' => .first .ampersand
    | '|' => .first .bar
    | '!' => .first .bang
    | '=' => .first .equal
    | '<' => .first .less
    | '>' => .first .greater
    | '(' => .single .opening
    | ')' => .single .closing
    | '.' => .single .dot
    | _ => .none

/-- Reads a character between lexemes. -/
def begin (position : Nat) (c : Char) : Except Span (List Placed × Scanner) :=
  let after := position + c.utf8Size
  match beginning c with
  | .blank => .ok ([], .between after)
  | .single t => .ok ([⟨t, position, after⟩], .between after)
  | .first r => .ok ([], ⟨position, after, r⟩)
  | .none => .error ⟨position, after⟩

/-- Reads one more character. -/
def Scanner.step (s : Scanner) (c : Char) : Except Span (List Placed × Scanner) :=
  let after := s.position + c.utf8Size
  match s.reading.next? c with
  | some (.more r) => .ok ([], ⟨s.start, after, r⟩)
  | some (.done t) => .ok ([⟨t, s.start, after⟩], .between after)
  | some .broken => .error ⟨s.start, s.position - 1⟩
  | none =>
    match s.flush with
    | .error e => .error e
    | .ok ended =>
      match begin s.position c with
      | .error e => .error e
      | .ok (begun, s') => .ok (ended ++ begun, s')

/-- Reads more characters. -/
def Scanner.feed (s : Scanner) : List Char → Except Span (List Placed × Scanner)
  | [] => .ok ([], s)
  | c :: cs =>
    match s.step c with
    | .error e => .error e
    | .ok (ts, s') =>
      match s'.feed cs with
      | .error e => .error e
      | .ok (us, s'') => .ok (ts ++ us, s'')

/-- Reads a text to its end. -/
def Scanner.run (s : Scanner) (cs : List Char) : Except Span (List Placed) :=
  match s.feed cs with
  | .error e => .error e
  | .ok (ts, s') =>
    match s'.flush with
    | .error e => .error e
    | .ok us => .ok (ts ++ us)

theorem Scanner.feed_append (s : Scanner) (a b : List Char) :
    s.feed (a ++ b) =
      match s.feed a with
      | .error e => .error e
      | .ok (ts, s') =>
        match s'.feed b with
        | .error e => .error e
        | .ok (us, s'') => .ok (ts ++ us, s'') := by
  induction a generalizing s with
  | nil => cases h : s.feed b <;> simp [feed, h]
  | cons c a ih =>
    simp only [List.cons_append, feed]
    cases s.step c with
    | error e => rfl
    | ok r =>
      obtain ⟨ts, s'⟩ := r
      simp only [ih]
      cases s'.feed a with
      | error e => rfl
      | ok r =>
        obtain ⟨us, s''⟩ := r
        simp only
        cases s''.feed b <;> simp

/-- The tokens of a test with their spans. -/
def scan (text : List Char) : Except SyntaxError (List Placed) :=
  match (Scanner.between 0).run text with
  | .ok ts => .ok ts
  | .error e =>
    .error ⟨e.start, e.stop,
      .unexpectedText (String.ofList (Text.sliceBytes e.start e.stop text))⟩

end Transclude.Condition
