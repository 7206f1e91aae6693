/-
Warnings.

Nothing that only warns stops the work at hand: what it is about is left out, and the warning says
so.  All of them are here, with their wording in `Warning.message`.
-/
import Transclude.Value.Basic

namespace Transclude

/-- What was left out, and why. -/
inductive Warning where
  /-- A definition or directive that needs a name and has none. -/
  | nameless (tag : String)
  /-- A reference without the location of what it refers to. -/
  | sourceless (tag : String)
  | severalChildren (origin name : String) (count : Nat)
  | noChild (origin name : String)
  | undefinedPostproduction (function : String)
  | undefinedHandler (function event : String)
  | undefinedFunction (function : String)
  | undefinedLoadHook (function : String)
  /-- A loop that does not name its list. -/
  | listless (tag : String)
  | notAList (source : String) (found : Value.Kind)
  | undefinedList (source : String)
  | scriptFailed (src reason : String)
  deriving DecidableEq

namespace Warning

/-- A kind of values with its article. -/
def articled : Value.Kind → String
  | .null => "null"
  | .boolean => "a boolean"
  | .number => "a number"
  | .string => "a string"
  | .array => "a list"
  | .object => "an object"

/-- A tag in angle brackets. -/
def angled (tag : String) : String := "<" ++ tag ++ ">"

/-- A text in double quotes, as it is. -/
def quoted (s : String) : String := "\"" ++ s ++ "\""

/-- What every failed load of a script is reported as. -/
def scriptFailure (src reason : String) : String :=
  "script " ++ quoted src ++ " failed to load: " ++ reason

/-- What warnings about a definition begin with. -/
def importing (origin name : String) : String :=
  "Importing snippets from " ++ quoted origin ++ ": snippet " ++ quoted name

/-- The wording of a warning. -/
def message : Warning → String
  | nameless tag => angled tag ++ " without a name attribute is ignored"
  | sourceless tag => angled tag ++ " without a src attribute is ignored"
  | severalChildren origin name count =>
    importing origin name ++ " has " ++ toString count ++ " child elements, only the first is used"
  | noChild origin name => importing origin name ++ " has no child element"
  | undefinedPostproduction function =>
    "Post-production function " ++ quoted function ++ " is not defined by the owner"
  | undefinedHandler function event =>
    "Event handler " ++ quoted function ++ " for " ++ quoted event
      ++ " is not defined by the owner"
  | undefinedFunction function => "Function " ++ quoted function ++ " is not defined by the owner"
  | undefinedLoadHook function =>
    "onloadend function " ++ quoted function ++ " is not defined by the owner"
  | listless tag => angled tag ++ " without a list attribute produces nothing"
  | notAList source found =>
    "for-each source " ++ quoted source ++ " is not a list (found " ++ articled found
      ++ "), nothing produced"
  | undefinedList source =>
    "for-each source " ++ quoted source ++ " is not defined, nothing produced"
  | scriptFailed src reason => scriptFailure src reason

end Warning

end Transclude
