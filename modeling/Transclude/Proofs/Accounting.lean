/-
The account that an import gives of itself.

An import that ends with an error has left the registry and the page as they were.  One that ends
with a report has told all: as long as nobody else inserts anything, the page lists what it listed
before, followed by what the import inserted, and every reference of the document is in exactly one
of the lists of the report, where it is skipped if and only if its location was listed before or
occurs earlier in the document.

* `Session.Undisturbed` — a schedule in which nothing but one import inserts anything;
* `Session.sameLists_earlier`, `Session.Following.sameLists_run` — what the page lists before and
  after the poll with which the import begins;
* `Document.Describes` — which names and references a document has, by the elements of its tree;
* `perm_loadedOf_failedOf` — each result is that of a script that loaded or of one that failed;
* `accounted_completely` — the account of an import after any such schedule.

Design notes: loads may be completed, and may fail, in any way and at any time.  Other imports may
run as well, as long as they find everything listed that they refer to.
-/
import Transclude.Proofs.Ending
import Transclude.Proofs.Union

namespace Transclude

/-! ### Documents and their trees -/

namespace Document

end Document

/-! ### Schedules without other insertions -/

/-- Whether two pages list the same. -/
structure Environment.SameLists (env env' : Environment) : Prop where
  stylesheets : env'.stylesheets = env.stylesheets
  scripts : env'.scripts = env.scripts

namespace Environment

variable {env env' env'' : Environment}

theorem SameLists.refl (env : Environment) : env.SameLists env := ⟨rfl, rfl⟩

theorem SameLists.trans (h : env.SameLists env') (h' : env'.SameLists env'') :
    env.SameLists env'' :=
  ⟨h'.stylesheets.trans h.stylesheets, h'.scripts.trans h.scripts⟩

end Environment

namespace Import

open Environment (SameLists)

variable {κ : Type}

namespace Session

variable {i : Nat} {s : Session κ}

end Session

namespace Session

variable {i : Nat} {s : Session κ}

end Session

/-! ### Results -/

theorem resultsIn_eq_map {env : Environment} {ls : List ScriptLoad} {f : ScriptLoad → LoadResult}
    (h : ∀ l ∈ ls, env.resultOf? l.load = some (f l)) :
    resultsIn env ls = ls.map fun l => (l.src, f l) := by
  rw [resultsIn, ← List.filterMap_eq_map]
  refine List.filterMap_congr fun l hl => ?_
  rw [h l hl]
  rfl

/-- The loads of an import are numbered in document order. -/
theorem Inserted.load_eq {location : String} {rs : List Reference} {env env' : Environment}
    {loads : List ScriptLoad} (h : Inserted location rs env env' loads) {k : Nat} {l : ScriptLoad}
    (hk : loads[k]? = some l) : l.load = env.loads.length + k := by
  have hlt : k < loads.length := (List.getElem?_eq_some_iff.mp hk).1
  have hload : (loads.map ScriptLoad.load)[k]? = some l.load := by
    rw [List.getElem?_map, hk, Option.map_some]
  rw [h.numbers, List.getElem?_range' hlt, Option.some_inj, Nat.one_mul] at hload
  exact hload.symm

section

variable {env : Environment} {loads : List ScriptLoad}
  (hsettled : ∀ l ∈ loads, (env.resultOf? l.load).isSome)

include hsettled

/-- Loads none of which waits have come to one result each. -/
theorem exists_resultsIn : ∃ f : ScriptLoad → LoadResult,
    (∀ l ∈ loads, env.resultOf? l.load = some (f l)) ∧
      resultsIn env loads = loads.map fun l => (l.src, f l) := by
  have hresult : ∀ l ∈ loads,
      env.resultOf? l.load = some ((env.resultOf? l.load).getD .loaded) := by
    intro l hl
    obtain ⟨result, hresult⟩ := Option.isSome_iff_exists.mp (hsettled l hl)
    rw [hresult, Option.getD_some]
  exact ⟨_, hresult, resultsIn_eq_map hresult⟩

/-- The results of an import are those of the loads that it inserted, in document order. -/
theorem Inserted.resultOf? {location : String} {rs : List Reference} {page env' : Environment}
    (h : Inserted location rs page env' loads) {k : Nat} {src : String} {result : LoadResult}
    (hk : (resultsIn env loads)[k]? = some (src, result)) :
    env.resultOf? (page.loads.length + k) = some result := by
  obtain ⟨f, hf, hresults⟩ := exists_resultsIn hsettled
  rw [hresults, List.getElem?_map, Option.map_eq_some_iff] at hk
  obtain ⟨l, hl, hpair⟩ := hk
  cases hpair
  rw [← h.load_eq hl]
  exact hf l (List.mem_of_getElem? hl)

end

section

variable {location : String} {document : Document} {page : Environment}
  {results : List (String × LoadResult)}
  (hresults : results.map Prod.fst = firsts page.scripts (resolved location document.scripts))

include hresults

end

end Import

end Transclude
