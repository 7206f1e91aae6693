/-
What an import reports.

* `Import.Error` — why a template could not be imported at all;
* `Import.Report` — the snippets, stylesheets and scripts of an imported template, and what became
  of them.
-/
import Transclude.Import.Fetch
import Transclude.Markup.Error
import Transclude.Warning

namespace Transclude.Import

/-- Why a template could not be imported. -/
inductive Error where
  | unavailable (location : String) (cause : FetchError)
  | malformed (location : String) (cause : Markup.ParseError)
  deriving DecidableEq

namespace Error

/-- The location of the template. -/
def location : Error → String
  | unavailable location _ => location
  | malformed location _ => location

/-- The wording of an error. -/
def message : Error → String
  | unavailable location cause =>
    "Importing snippets from " ++ Warning.quoted location ++ " failed: " ++ cause.message
  | malformed location cause =>
    "Template " ++ Warning.quoted location ++ " is not well-formed: " ++ cause.message

end Error

/-- What an import did; resources are named by their resolved locations, in document order. -/
structure Report where
  /-- The snippets it registered. -/
  snippets : List String := []
  stylesheetsInserted : List String := []
  /-- The stylesheets that were linked before. -/
  stylesheetsSkipped : List String := []
  scriptsLoaded : List String := []
  /-- The scripts that were present before. -/
  scriptsSkipped : List String := []
  scriptsFailed : List String := []
  deriving DecidableEq

/-- Whether every script that was inserted loaded. -/
def Report.scriptsOk (r : Report) : Bool := r.scriptsFailed.isEmpty

end Transclude.Import
