/-
From the text of a template to HTML, in one go.

* `render` — a snippet of a template in a context, with no owner and no resources.
-/
import Transclude.Output.Html
import Transclude.Production.Producer

namespace Transclude

/-- Why a template cannot be rendered. -/
inductive RenderError where
  | malformed (e : Markup.ParseError)
  | production (e : Production.Error)
  deriving DecidableEq

/-- The wording of an error. -/
def RenderError.message : RenderError → String
  | malformed e => "parse error: " ++ e.message
  | production e => "production error: " ++ e.message

/-- The HTML text of a tree, indented if the configuration says so. -/
def Config.html {κ : Type} (config : Config) (e : Output.Element κ) : String :=
  if config.indented then e.toIndentedHtml else e.toHtml

/-- The origin that warnings about a template without a location name. -/
def inlineOrigin : String := "<inline>"

/-- The HTML of a snippet of a template, with the warnings on the way. -/
def render (config : Config) (source snippet : String) (context : Value) :
    Except RenderError String × List Warning :=
  match Document.parse config.reserved source with
  | .error e => (.error (.malformed e), [])
  | .ok (document, warnings) =>
    let registry := Registry.collect {} document
    let outcome :=
      (Producer.ofConfig registry config (Owner.none : Owner Empty)).produce snippet context
    let result :=
      match outcome.result with
      | .error e => .error (.production e)
      | .ok e => .ok (config.html e)
    (result, warnings ++ document.definitionWarnings inlineOrigin ++ outcome.warnings)

end Transclude
