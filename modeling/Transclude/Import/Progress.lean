/-
Importing a template.

An import fetches and parses a template, registers its snippets, links its stylesheets and inserts
its scripts, all in one go and without waiting.  A resource that the environment has already is
skipped, so importing a template again changes nothing there.  After that the import waits for the
loads of the scripts it inserted.  It is polled: every poll looks at the loads that have not settled
yet and calls the function that a reference names as soon as its script has loaded.  It does so in
document order for up to thirty scripts, and for more of them in the order in which they were
completed.  A poll that finds all loads settled ends the import with a report.

* `Import.begin` — everything up to the insertion of the scripts; an error leaves nothing behind;
* `Import.poll` — one look at the loads;
* `Import.abandon` — the end of an import that nobody waits for any more.

Design notes: an import keeps no environment of its own.  Between two polls anything may happen to
the environment, other imports included.
-/
import Transclude.Environment
import Transclude.Import.Report
import Transclude.Location
import Transclude.Production.Outcome
import Transclude.Registry

namespace Transclude.Import

open Production (Notice)

/-- A script that an import inserted, and what its load came to as far as the import knows. -/
structure ScriptLoad where
  src : String
  /-- The owner function to call once it has loaded. -/
  hook : Option String
  load : Nat
  result : Option LoadResult := none
  deriving DecidableEq

/-- An import that waits for its scripts. -/
structure Progress where
  /-- What it did so far; the scripts that it waits for are not in it. -/
  report : Report
  /-- The scripts it inserted, in document order. -/
  loads : List ScriptLoad
  deriving DecidableEq

/-- An import that has begun, with the registry and the environment as it leaves them. -/
structure Begun where
  registry : Registry
  environment : Environment
  progress : Progress
  warnings : List Warning

/-! ### Beginning -/

/-- Links a stylesheet of a template, unless it is linked already. -/
def linkStylesheet (location : String) (s : Environment × Report) (r : Reference) :
    Environment × Report :=
  let href := Location.resolve location r.src
  if s.1.hasStylesheet href then
    (s.1, { s.2 with stylesheetsSkipped := s.2.stylesheetsSkipped ++ [href] })
  else
    (s.1.insertStylesheet href,
      { s.2 with stylesheetsInserted := s.2.stylesheetsInserted ++ [href] })

/-- Inserts a script of a template, unless it is present already. -/
def includeScript (location : String) (s : Environment × Progress) (r : Reference) :
    Environment × Progress :=
  let src := Location.resolve location r.src
  if s.1.hasScript src then
    (s.1, { s.2 with
      report := { s.2.report with scriptsSkipped := s.2.report.scriptsSkipped ++ [src] } })
  else
    let (environment, load) := s.1.insertScript src
    (environment, { s.2 with loads := s.2.loads ++ [⟨src, r.onLoaded, load, none⟩] })

/-- Registers and inserts what a document holds. -/
def install (location : String) (document : Document) (registry : Registry)
    (environment : Environment) : Registry × Environment × Progress :=
  let report : Report := { snippets := document.registeredNames }
  let linked := document.stylesheets.foldl (linkStylesheet location) (environment, report)
  let included := document.scripts.foldl (includeScript location) (linked.1, ⟨linked.2, []⟩)
  (registry.collect document, included.1, included.2)

/-- Begins the import of a template, with what fetching its text came to. -/
def beginWith (config : Config) (location : String) (fetched : Except FetchError String)
    (registry : Registry) (environment : Environment) : Except Error Begun :=
  match fetched with
  | .error cause => .error (.unavailable location cause)
  | .ok text =>
    match Document.parse config.reserved text with
    | .error cause => .error (.malformed location cause)
    | .ok (document, warnings) =>
      let (registry', environment', progress) := install location document registry environment
      .ok ⟨registry', environment', progress, warnings ++ document.definitionWarnings location⟩

/-- Begins the import of the template at a location. -/
def begin (config : Config) (fetch : Fetcher) (location : String) (registry : Registry)
    (environment : Environment) : Except Error Begun :=
  beginWith config location (fetch location) registry environment

/-! ### Waiting -/

variable {κ : Type}

/-- The element that stands for a script. -/
def scriptElement (src : String) : Output.Element κ :=
  Output.Element.setAttribute ⟨"script", [], [], []⟩ "src" src

/-- Calls the function for a script that has loaded. -/
def runHook (owner : Owner κ) (src function : String) : List (Notice κ) :=
  match owner.call? function (.string src) (scriptElement src) with
  | some (_, calls) => calls.map .call
  | none => [.warning (.undefinedLoadHook function)]

/-- What happens when a load has settled: without an owner, or without a function to call, nothing. -/
def settled (owner : Option (Owner κ)) (l : ScriptLoad) : LoadResult → List (Notice κ)
  | .failed _ => []
  | .loaded =>
    match owner, l.hook with
    | some owner, some function => runHook owner l.src function
    | _, _ => []

/-- Looks at one load. -/
def pollLoad (owner : Option (Owner κ)) (environment : Environment) (l : ScriptLoad) :
    Environment × ScriptLoad × List (Notice κ) :=
  match l.result with
  | some _ => (environment, l, [])
  | none =>
    match environment.poll l.load with
    | (environment', .settled result) =>
      (environment', { l with result := some result }, settled owner l result)
    | (environment', _) => (environment', l, [])

/-- Looks at loads in document order; with every load goes what its look gave notice of. -/
def pollLoads (owner : Option (Owner κ)) :
    Environment → List ScriptLoad → Environment × List (ScriptLoad × List (Notice κ))
  | environment, [] => (environment, [])
  | environment, l :: ls =>
    let (environment', look) := pollLoad owner environment l
    let (environment'', looks) := pollLoads owner environment' ls
    (environment'', look :: looks)

/-- The most loads that are looked at in document order. -/
def fewLoads : Nat := 30

/-- The order in which a poll goes about its looks, given in document order. -/
def arrange {α : Type} (load : α → Nat) (environment : Environment) (looks : List α) : List α :=
  if looks.length ≤ fewLoads then looks
  else
    (looks.filter fun look => !environment.completed.contains (load look))
      ++ environment.completed.filterMap fun n => looks.find? fun look => load look == n

/-- The results of loads, if all have settled. -/
def results? (loads : List ScriptLoad) : Option (List (String × LoadResult)) :=
  loads.mapM fun l => l.result.map fun result => (l.src, result)

/-- The scripts that loaded. -/
def loadedOf (results : List (String × LoadResult)) : List String :=
  results.filterMap fun
    | (src, .loaded) => some src
    | (_, .failed _) => none

/-- The scripts that did not load. -/
def failedOf (results : List (String × LoadResult)) : List String :=
  results.filterMap fun
    | (_, .loaded) => none
    | (src, .failed _) => some src

/-- A warning for every script that did not load. -/
def failureWarnings (results : List (String × LoadResult)) : List Warning :=
  results.filterMap fun
    | (_, .loaded) => none
    | (_, .failed e) => some (.scriptFailed e.src e.reason)

/-- How an import stands after a poll. -/
inductive Status where
  | waiting (p : Progress)
  | finished (r : Report)
  deriving DecidableEq

/-- What a poll leaves. -/
structure Polled (κ : Type) where
  environment : Environment
  status : Status
  notices : List (Notice κ)

/-- Looks at the loads of an import, and ends it if all have settled. -/
def poll (owner : Option (Owner κ)) (environment : Environment) (p : Progress) : Polled κ :=
  let (environment', looks) := pollLoads owner environment p.loads
  let loads := looks.map Prod.fst
  let notices := (arrange (fun look => look.1.load) environment looks).flatMap Prod.snd
  match results? loads with
  | none => ⟨environment', .waiting { p with loads := loads }, notices⟩
  | some results =>
    let report :=
      { p.report with scriptsLoaded := loadedOf results, scriptsFailed := failedOf results }
    ⟨environment', .finished report, notices ++ (failureWarnings results).map .warning⟩

/-- Gives up waiting for the loads of an import; what it did stays. -/
def abandon (environment : Environment) (p : Progress) : Environment :=
  p.loads.foldl (fun environment l => environment.forget l.load) environment

end Transclude.Import
