/-
The account of an import's references.

A document refers to locations, some of them more than once and some under several spellings.  What
is listed on the page already, and what occurs earlier in the document, is skipped; every other
location is inserted.  So the references fall into two lists, both in document order, and the page
lists after the beginning of an import what it listed before, followed by the second of them.

* `repeats`, `firsts` — the two lists, told apart by the place of a reference alone;
* `perm_firsts_repeats` — each reference is in one of them;
* `foldl_linkStylesheet`, `foldl_includeScript` — what the references of a document come to;
* `install_eq` — the report and the page when an import has begun;
* `install_of_lists` — a document that is listed already is skipped as a whole.
-/
import Transclude.Proofs.Progress

namespace Transclude.Import

/-- The locations that references of a template denote. -/
def resolved (location : String) (rs : List Reference) : List String :=
  rs.map fun r => Location.resolve location r.src

/-! ### First and repeated occurrences -/

/-- Whether the location at a place is listed, or occurs before that place. -/
def isRepeat (listed locations : List String) (x : String × Nat) : Bool :=
  (listed ++ locations.take x.2).contains x.1

/-- The locations that are listed or occur before, in their order. -/
def repeats (listed locations : List String) : List String :=
  (locations.zipIdx.filter (isRepeat listed locations)).map Prod.fst

/-- The locations that are not listed and occur for the first time, in their order. -/
def firsts (listed locations : List String) : List String :=
  (locations.zipIdx.filter fun x => !isRepeat listed locations x).map Prod.fst

/-- Where a location is listed, listing it once more makes no difference. -/
theorem isRepeat_append_of_mem {listed : List String} {x : String} (h : x ∈ listed)
    (locations : List String) : isRepeat (listed ++ [x]) locations = isRepeat listed locations := by
  funext y
  rw [Bool.eq_iff_iff, isRepeat, isRepeat, List.contains_iff_mem, List.contains_iff_mem]
  simp only [List.mem_append, List.mem_singleton]
  constructor
  · rintro ((hlisted | rfl) | hbefore)
    · exact .inl hlisted
    · exact .inl h
    · exact .inr hbefore
  · rintro (hlisted | hbefore)
    · exact .inl (.inl hlisted)
    · exact .inr hbefore

/-- Those after the first location are told apart as if this one were listed. -/
theorem filter_isRepeat_cons (f : Bool → Bool) (listed : List String) (x : String)
    (locations : List String) :
    ((x :: locations).zipIdx.filter fun y => f (isRepeat listed (x :: locations) y)).map Prod.fst =
      (if f (listed.contains x) then [x] else []) ++
        (locations.zipIdx.filter fun y => f (isRepeat (listed ++ [x]) locations y)).map Prod.fst := by
  have hhead : isRepeat listed (x :: locations) (x, 0) = listed.contains x := by
    simp [isRepeat]
  have htail : ∀ y : String × Nat,
      isRepeat listed (x :: locations) (y.1, y.2 + 1) = isRepeat (listed ++ [x]) locations y := by
    intro y
    rw [isRepeat, isRepeat, List.take_succ_cons, List.append_assoc, List.singleton_append]
  rw [List.zipIdx_cons', List.filter_cons, List.filter_map, hhead]
  have hfilter : ((fun y => f (isRepeat listed (x :: locations) y)) ∘ Prod.map id (· + 1)) =
      fun y => f (isRepeat (listed ++ [x]) locations y) :=
    funext fun y => congrArg f (htail y)
  rw [hfilter]
  split
  · simp
  · simp

theorem repeats_cons_of_mem {listed : List String} {x : String} (h : x ∈ listed)
    (locations : List String) :
    repeats listed (x :: locations) = x :: repeats listed locations := by
  have hcons := filter_isRepeat_cons id listed x locations
  rw [isRepeat_append_of_mem h] at hcons
  simpa [repeats, h] using hcons

theorem repeats_cons_of_not_mem {listed : List String} {x : String} (h : x ∉ listed)
    (locations : List String) :
    repeats listed (x :: locations) = repeats (listed ++ [x]) locations := by
  have hcons := filter_isRepeat_cons id listed x locations
  simpa [repeats, h] using hcons

theorem firsts_cons_of_mem {listed : List String} {x : String} (h : x ∈ listed)
    (locations : List String) : firsts listed (x :: locations) = firsts listed locations := by
  have hcons := filter_isRepeat_cons not listed x locations
  rw [isRepeat_append_of_mem h] at hcons
  simpa [firsts, h] using hcons

theorem firsts_cons_of_not_mem {listed : List String} {x : String} (h : x ∉ listed)
    (locations : List String) :
    firsts listed (x :: locations) = x :: firsts (listed ++ [x]) locations := by
  have hcons := filter_isRepeat_cons not listed x locations
  simpa [firsts, h] using hcons

/-- If all locations are listed, none of them is new. -/
theorem firsts_of_subset {listed locations : List String} (h : ∀ x ∈ locations, x ∈ listed) :
    firsts listed locations = [] := by
  induction locations with
  | nil => rfl
  | cons x locations ih =>
    rw [firsts_cons_of_mem (h x (by simp)), ih fun y hy => h y (by simp [hy])]

theorem repeats_of_subset {listed locations : List String} (h : ∀ x ∈ locations, x ∈ listed) :
    repeats listed locations = locations := by
  induction locations with
  | nil => rfl
  | cons x locations ih =>
    rw [repeats_cons_of_mem (h x (by simp)), ih fun y hy => h y (by simp [hy])]

/-! ### The references of a document -/

/-- Linking the stylesheets of a document: those that are not there yet, each of them once. -/
theorem foldl_linkStylesheet (location : String) (rs : List Reference) (s : Environment × Report) :
    rs.foldl (linkStylesheet location) s =
      ({ s.1 with
          stylesheets := s.1.stylesheets ++ firsts s.1.stylesheets (resolved location rs) },
        { s.2 with
          stylesheetsInserted :=
            s.2.stylesheetsInserted ++ firsts s.1.stylesheets (resolved location rs)
          stylesheetsSkipped :=
            s.2.stylesheetsSkipped ++ repeats s.1.stylesheets (resolved location rs) }) := by
  induction rs generalizing s with
  | nil => simp [resolved, firsts, repeats]
  | cons r rs ih =>
    obtain ⟨env, report⟩ := s
    have hresolved : resolved location (r :: rs) =
      Location.resolve location r.src :: resolved location rs := rfl
    rw [List.foldl_cons, ih, hresolved, linkStylesheet]
    by_cases hmem : Location.resolve location r.src ∈ env.stylesheets
    · simp [Environment.hasStylesheet, hmem, firsts_cons_of_mem hmem, repeats_cons_of_mem hmem]
    · simp [Environment.hasStylesheet, Environment.insertStylesheet, hmem,
        firsts_cons_of_not_mem hmem, repeats_cons_of_not_mem hmem]

/-- Inserting the scripts of a document: those that are not there yet, each of them once. -/
theorem foldl_includeScript (location : String) (rs : List Reference) (s : Environment × Progress) :
    let new := firsts s.1.scripts (resolved location rs)
    (rs.foldl (includeScript location) s).1 =
        { s.1 with scripts := s.1.scripts ++ new, loads := s.1.loads ++ new.map s.1.newLoad } ∧
      (rs.foldl (includeScript location) s).2.report =
        { s.2.report with scriptsSkipped :=
            s.2.report.scriptsSkipped ++ repeats s.1.scripts (resolved location rs) } ∧
      (rs.foldl (includeScript location) s).2.loads.map ScriptLoad.src =
        s.2.loads.map ScriptLoad.src ++ new := by
  induction rs generalizing s with
  | nil => simp [resolved, firsts, repeats]
  | cons r rs ih =>
    obtain ⟨env, progress⟩ := s
    have hresolved : resolved location (r :: rs) =
      Location.resolve location r.src :: resolved location rs := rfl
    obtain ⟨henv, hreport, hloads⟩ := ih (includeScript location (env, progress) r)
    rw [List.foldl_cons, henv, hreport, hloads, hresolved, includeScript]
    by_cases hmem : Location.resolve location r.src ∈ env.scripts
    · simp [Environment.hasScript, hmem, firsts_cons_of_mem hmem, repeats_cons_of_mem hmem]
    · -- the loads begin one after the other, and none of them changes how the next one begins
      have hnew : (env.insertScript (Location.resolve location r.src)).1.newLoad = env.newLoad := rfl
      rw [Environment.hasScript, if_neg (by simpa using hmem), firsts_cons_of_not_mem hmem,
        repeats_cons_of_not_mem hmem]
      simp only [hnew]
      simp [Environment.insertScript, Environment.addScript]

/-! ### The beginning of an import -/

/-- The report about a document on a page, with what the loads of its scripts came to. -/
def reportOn (location : String) (document : Document) (page : Environment)
    (results : List (String × LoadResult)) : Report where
  snippets := document.registeredNames
  stylesheetsInserted := firsts page.stylesheets (resolved location document.stylesheets)
  stylesheetsSkipped := repeats page.stylesheets (resolved location document.stylesheets)
  scriptsLoaded := loadedOf results
  scriptsSkipped := repeats page.scripts (resolved location document.scripts)
  scriptsFailed := failedOf results

/-- The page once a document is installed on it. -/
def furnished (location : String) (document : Document) (page : Environment) : Environment :=
  let new := firsts page.scripts (resolved location document.scripts)
  { page with
    stylesheets :=
      page.stylesheets ++ firsts page.stylesheets (resolved location document.stylesheets)
    scripts := page.scripts ++ new
    loads := page.loads ++ new.map page.newLoad }

theorem install_eq (location : String) (document : Document) (registry : Registry)
    (page : Environment) :
    let installed := install location document registry page
    installed.1 = registry.collect document ∧
      installed.2.1 = furnished location document page ∧
      installed.2.2.report = reportOn location document page [] ∧
      installed.2.2.loads.map ScriptLoad.src =
        firsts page.scripts (resolved location document.scripts) := by
  intro installed
  have hlinked := foldl_linkStylesheet location document.stylesheets
    (page, { snippets := document.registeredNames })
  obtain ⟨henv, hreport, hloads⟩ := foldl_includeScript location document.scripts
    ((document.stylesheets.foldl (linkStylesheet location)
        (page, { snippets := document.registeredNames })).1,
      ⟨(document.stylesheets.foldl (linkStylesheet location)
        (page, { snippets := document.registeredNames })).2, []⟩)
  rw [hlinked] at henv hreport hloads
  have hinstalled : installed = install location document registry page := rfl
  simp only [install, hlinked] at hinstalled
  rw [hinstalled]
  refine ⟨rfl, henv, ?_, ?_⟩
  · simpa [reportOn, loadedOf, failedOf] using hreport
  · simpa using hloads

/-- The report about a document all of whose references are skipped. -/
def skippedReport (location : String) (document : Document) : Report where
  snippets := document.registeredNames
  stylesheetsSkipped := resolved location document.stylesheets
  scriptsSkipped := resolved location document.scripts

/-- A document that is listed already is skipped as a whole. -/
theorem install_of_lists {location : String} {document : Document} {page : Environment}
    (h : Lists page location document) (registry : Registry) :
    install location document registry page =
      (registry.collect document, page, ⟨skippedReport location document, []⟩) := by
  have hstylesheets : ∀ x ∈ resolved location document.stylesheets, x ∈ page.stylesheets :=
    List.forall_mem_map.mpr h.stylesheets
  have hscripts : ∀ x ∈ resolved location document.scripts, x ∈ page.scripts :=
    List.forall_mem_map.mpr h.scripts
  obtain ⟨hregistry, hpage, hreport, hloads⟩ := install_eq location document registry page
  have hfurnished : furnished location document page = page := by
    simp [furnished, firsts_of_subset hstylesheets, firsts_of_subset hscripts]
  rw [firsts_of_subset hscripts, List.map_eq_nil_iff] at hloads
  rw [hfurnished] at hpage
  rw [reportOn, firsts_of_subset hstylesheets, repeats_of_subset hstylesheets,
    repeats_of_subset hscripts] at hreport
  generalize install location document registry page = installed at *
  obtain ⟨collected, env, report, loads⟩ := installed
  subst hregistry hpage hreport hloads
  rfl

end Transclude.Import
