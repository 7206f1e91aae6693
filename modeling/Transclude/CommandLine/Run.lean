/-
A run of the program.

A run reads the settings and the variables, imports the template, and then lists its snippets or
produces one of them.  The first of these steps that fails ends the run.

* `CommandLine.run` — a run with given options, where `read` reads the files;
* `CommandLine.runArgs` — a run with given arguments.

An error in a test that cannot be shown in it breaks the run off, with an exit code of its own.

Design notes: what the run does with the texts of files is pure.  Only reading them is left to the
caller, in whatever monad that happens.  Scripts in a page that is new load at once, so there is
nothing to wait for after the import has begun.
-/
import Transclude.CommandLine.Options
import Transclude.Diagnostic
import Transclude.FileTree
import Transclude.Import.Progress
import Transclude.Render
import Transclude.Value.Reader

namespace Transclude.CommandLine

/-- What a run leaves: its exit code, what it wrote, and the warnings on the way. -/
structure Outcome where
  code : Nat
  output : String := ""
  errors : String := ""
  warnings : List Warning := []
  deriving DecidableEq

/-- A run that failed with a message. -/
def failure (message : String) (warnings : List Warning) : Outcome :=
  { code := 1, errors := message ++ "\n", warnings := warnings }

/-- A run that failed with a message in one line. -/
def plainFailure (message : String) (warnings : List Warning) : Outcome :=
  failure ("Error: " ++ message) warnings

/-- A run that broke off because an error cannot be shown. -/
def brokenOff (warnings : List Warning) : Outcome :=
  { code := 101, errors := "Label start is after its end\n", warnings := warnings }

/-- The settings that a file gives, by its path and what reading it came to. -/
def configOf (path : String) (text : Except FileError String) : Except String Config :=
  match text with
  | .error e =>
    .error ("Error loading config '" ++ path ++ "': Failed to read config file: " ++ e.message)
  | .ok text =>
    match Config.ofToml? text with
    | none => .error ("Error loading config '" ++ path ++ "': Failed to parse config TOML")
    | some config => .ok config

/-- The variables in a JSON text. -/
def variablesOf (text : String) : Except String Value :=
  match Value.ofJson text.toList with
  | .error e => .error ("variables are not valid JSON: " ++ e.message)
  | .ok v => .ok v

/-- Lists the snippets that a template registered. -/
def listing (snippets : List String) : String :=
  String.join ((Text.sortDistinct snippets).map (· ++ "\n"))

/-- Produces the snippet that the options name. -/
def produceSnippet (options : Options) (config : Config) (context : Value) (registry : Registry)
    (warnings : List Warning) : Outcome :=
  match options.snippet with
  | none =>
    plainFailure "no snippet given (use --list to see what the template defines)" warnings
  | some snippet =>
    let outcome :=
      (Producer.ofConfig registry config (Owner.none : Owner Empty)).produce snippet context
    let warnings := warnings ++ outcome.warnings
    match outcome.result with
    | .ok e =>
      let html := config.html e
      { code := 0, output := if config.indented then html else html ++ "\n", warnings := warnings }
    | .error (.condition test cause) =>
      match Diagnostic.ofTest? test cause with
      | some report => failure report warnings
      | none => brokenOff warnings
    | .error e => plainFailure e.message warnings

/-- Imports a template, with what reading it came to, and does what the options ask for. -/
def perform (options : Options) (config : Config) (context : Value)
    (template : Except FileError String) : Outcome :=
  let fetched := template.mapError (FileError.toFetchError options.template)
  match Import.beginWith config options.template fetched {} {} with
  | .error (.malformed location cause) =>
    match template with
    | .ok text => failure (Diagnostic.ofParseError text options.template cause) []
    | .error _ => plainFailure (Import.Error.malformed location cause).message []
  | .error e => plainFailure e.message []
  | .ok begun =>
    if options.list then
      { code := 0, output := listing begun.progress.report.snippets, warnings := begun.warnings }
    else produceSnippet options config context begun.registry begun.warnings

variable {m : Type → Type} [Monad m]

/-- Reads the settings. -/
def loadConfig (read : String → m (Except FileError String)) (options : Options) :
    m (Except String Config) :=
  match options.configFile with
  | none => return .ok {}
  | some path => return configOf path (← read path)

/-- Reads the variables. -/
def loadVariables (read : String → m (Except FileError String)) (options : Options) :
    m (Except String Value) :=
  match options.vars, options.varsFile with
  | some text, _ => return variablesOf text
  | none, none => return .ok .empty
  | none, some path => do
    match ← read path with
    | .error e => return .error ("reading variables '" ++ path ++ "': " ++ e.message)
    | .ok text => return variablesOf text

/-- A run with options. -/
def run (read : String → m (Except FileError String)) (options : Options) : m Outcome := do
  match ← loadConfig read options with
  | .error message => return failure message []
  | .ok config =>
    let config := { config with indented := config.indented || options.indented }
    match ← loadVariables read options with
    | .error message => return plainFailure message []
    | .ok context => return perform options config context (← read options.template)

/-- How the program is used. -/
def usage : String :=
  String.join
    ["Usage: pagesnippets [OPTIONS] <TEMPLATE> [SNIPPET]\n\nOptions:\n",
      "  -l, --list               List the snippets the template defines\n",
      "      --vars <JSON>        Variables as inline JSON\n",
      "      --vars-file <FILE>   Variables from a JSON file\n",
      "  -c, --config <FILE>      Engine configuration file (TOML format)\n",
      "  -p, --pretty             Indent the produced HTML\n",
      "  -v, --verbose            Log progress; repeat for more\n",
      "  -h, --help               Print help\n"]

/-- A run with arguments; with arguments that make no sense it only says how it is used. -/
def runArgs (read : String → m (Except FileError String)) (args : List String) : m Outcome :=
  match Options.ofArgs args with
  | .ok options => run read options
  | .error .help => return { code := 0, output := usage }
  | .error .misuse => return { code := 2, errors := usage }

end Transclude.CommandLine
