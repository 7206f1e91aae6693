/-
Where the texts of templates come from.

* `Fetcher` — what gives the text at a location, or says why there is none;
* `Fetcher.ofResources` — texts that are kept in memory.
-/

namespace Transclude

/-- Why there is no text at a location. -/
inductive FetchError where
  | notFound (location : String)
  | unreadable (location reason : String)
  deriving DecidableEq

/-- The wording of an error. -/
def FetchError.message : FetchError → String
  | notFound location => "resource not found: " ++ location
  | unreadable location reason => "failed to read " ++ location ++ ": " ++ reason

/-- What gives the text at a location. -/
abbrev Fetcher := String → Except FetchError String

/-- The fetcher of texts by their location; of several at one location the first counts. -/
def Fetcher.ofResources (resources : List (String × String)) : Fetcher := fun location =>
  match resources.lookup location with
  | some text => .ok text
  | none => .error (.notFound location)

end Transclude
