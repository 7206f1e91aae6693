/-
The page that stylesheets and scripts are inserted into.

An environment lists its stylesheets and scripts in the order of their insertion.  The insertion of a
script begins a load.  A load settles at once, or, where loads are deferred, when its script is
completed, and what it came to never changes after that.  Whoever waits for a load polls it and takes
its result once; one that nobody waits for any more still settles and still counts.

* `Environment.insertScript` — a new load, known by its index;
* `Environment.complete` — settles all loads of a script that wait;
* `Environment.poll` — looks at a load and takes what it came to;
* `Environment.close` — the end of the page, which fails the loads that still wait.

Design notes: the loads stay in one list in the order of their insertion, so that an index names a
load for good.  Which scripts are pending is read off that list.  The order in which loads were
completed is kept beside it, for those who have to hear of them in that order.
-/
import Transclude.Text.Debug
import Transclude.Text.Sort
import Transclude.Warning

namespace Transclude

/-- A script that did not load. -/
structure LoadError where
  src : String
  reason : String
  deriving DecidableEq

/-- The wording of an error. -/
def LoadError.message (e : LoadError) : String := Warning.scriptFailure e.src e.reason

/-- What a load came to. -/
inductive LoadResult where
  | loaded
  | failed (e : LoadError)
  deriving DecidableEq

/-- The load of an inserted script. -/
structure Load where
  src : String
  /-- What it came to; `none` while it waits. -/
  result : Option LoadResult
  /-- Whether nobody waits for it any more. -/
  released : Bool := false
  deriving DecidableEq

namespace Load

/-- Whether a load waits for its script to be completed. -/
def waits (l : Load) : Bool := l.result.isNone

/-- The load with a result, if it waits for one. -/
def settle (result : LoadResult) (l : Load) : Load :=
  { l with result := some (l.result.getD result) }

/-- The load with nobody waiting for it. -/
def release (l : Load) : Load := { l with released := true }

/-- The failure of a load whose page is gone. -/
def abandon (l : Load) : Load :=
  l.settle (.failed ⟨l.src, "environment dropped before the script finished loading"⟩)

@[simp] theorem src_settle (result : LoadResult) (l : Load) : (l.settle result).src = l.src := rfl

@[simp] theorem waits_settle (result : LoadResult) (l : Load) : (l.settle result).waits = false := rfl

end Load

/-- What polling a load shows. -/
inductive LoadPoll where
  | pending
  | settled (result : LoadResult)
  /-- Its result was taken before, or nobody waits for it. -/
  | released
  deriving DecidableEq

/-- The stylesheets and scripts of a page. -/
structure Environment where
  stylesheets : List String := []
  scripts : List String := []
  /-- The scripts whose loads fail. -/
  failing : List String := []
  /-- Whether new loads wait to be completed. -/
  deferred : Bool := false
  loads : List Load := []
  /-- The loads that waited and were completed, by their numbers, in the order of that. -/
  completed : List Nat := []
  deriving DecidableEq

namespace Environment

/-- The environment in which new loads wait to be completed. -/
def defer (env : Environment) : Environment := { env with deferred := true }

/-- Whether a stylesheet is linked. -/
def hasStylesheet (env : Environment) (href : String) : Bool := env.stylesheets.contains href

/-- Links a stylesheet. -/
def insertStylesheet (env : Environment) (href : String) : Environment :=
  { env with stylesheets := env.stylesheets ++ [href] }

/-- Whether a script is present. -/
def hasScript (env : Environment) (src : String) : Bool := env.scripts.contains src

/-- The environment with a script that is there without a load. -/
def addScript (env : Environment) (src : String) : Environment :=
  { env with scripts := env.scripts ++ [src] }

/-- Makes every load of a script that begins from now on fail. -/
def failScript (env : Environment) (src : String) : Environment :=
  { env with failing := src :: env.failing }

/-- The load that begins when a script is inserted. -/
def newLoad (env : Environment) (src : String) : Load where
  src := src
  result :=
    if env.failing.contains src then some (.failed ⟨src, "load error"⟩)
    else if env.deferred then none
    else some .loaded

/-- Inserts a script; the number names its load. -/
def insertScript (env : Environment) (src : String) : Environment × Nat :=
  ({ env.addScript src with loads := env.loads ++ [env.newLoad src] }, env.loads.length)

/-- Whether a load waits for a script to be completed. -/
def awaits (src : String) (l : Load) : Bool := l.src == src && l.waits

/-- The numbers of the loads that wait for a script to be completed. -/
def awaiting (env : Environment) (src : String) : List Nat :=
  env.loads.zipIdx.filterMap fun (l, load) => if awaits src l then some load else none

/-- Completes a script: its loads that wait settle; the number says how many did. -/
def complete (env : Environment) (src : String) (result : LoadResult) : Environment × Nat :=
  ({ env with
      loads := env.loads.map fun l => if awaits src l then l.settle result else l
      completed := env.completed ++ env.awaiting src },
    env.loads.countP (awaits src))

/-- The scripts with loads that wait, sorted. -/
def pending (env : Environment) : List String :=
  Text.sortDistinct ((env.loads.filter Load.waits).map Load.src)

/-- Gives up waiting for a load. -/
def forget (env : Environment) (load : Nat) : Environment :=
  { env with loads := env.loads.modify load Load.release }

/-- Looks at a load: a result is taken, and from then on nobody waits for it. -/
def poll (env : Environment) (load : Nat) : Environment × LoadPoll :=
  match env.loads[load]? with
  | none => (env, .released)
  | some l =>
    if l.released then (env, .released)
    else
      match l.result with
      | none => (env, .pending)
      | some result => (env.forget load, .settled result)

/-- The end of the page: loads that still wait fail. -/
def close (env : Environment) : Environment := { env with loads := env.loads.map Load.abandon }

/-- The environment as messages show it. -/
def debugText (env : Environment) : String :=
  "InMemoryEnvironment \x7b stylesheets: " ++ Text.debugList env.stylesheets ++ ", scripts: "
    ++ Text.debugList env.scripts ++ ", deferred: " ++ toString env.deferred ++ ", .. \x7d"

end Environment

end Transclude
