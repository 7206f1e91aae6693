/-
Importing a template again.

Once an import has ended with a report, the page lists all that its document refers to, and the
registry holds what the document defines.  A second import of the same text finds nothing to insert
and so nothing to wait for: it ends at its first poll, and all it does is to register the same
fragments once more.

* `Task.look_of_no_loads` — the first look of an import that inserted no scripts;
* `Session.step_poll_of_lists` — the whole of an import on a page that lists all of its document;
* `Session.collected_of_finished` — what a first import leaves;
* `import_again_changes_nothing` — an import that follows another one of the same text.

Design notes: after the first import the page may go on to change, since what is listed stays so.
-/
import Transclude.Proofs.Ending
import Transclude.Proofs.Union

namespace Transclude.Import

variable {κ : Type}

/-- The page and the import after a look at no loads at all. -/
theorem Task.look_of_no_loads (t : Task κ) (env : Environment) (r : Report) :
    t.look env ⟨r, []⟩ = (env, { t with stage := .finished (r.ended []) }) := by
  have hlook : t.look env ⟨r, []⟩ =
    (env, { t with stage := .finished (r.ended []), notices := t.notices ++ [] }) := rfl
  rw [hlook, List.append_nil]

namespace Session

variable {s : Session κ} {i : Nat}

/-- On a page that lists all of its document an import ends at the poll with which it begins. -/
theorem step_poll_of_lists {t : Task κ} {text : String} {document : Document}
    {warnings : List Warning} (ht : s.tasks[i]? = some t)
    (htext : t.stage = .fetching (some (.ok text)))
    (hparse : Document.parse t.config.reserved text = .ok (document, warnings))
    (hlists : Lists s.environment t.location document) :
    s.step (.poll i) =
      ⟨s.environment, s.tasks.set i { t with
        registry := t.registry.collect document
        stage := .finished (skippedReport t.location document)
        notices := t.notices
          ++ (warnings ++ document.definitionWarnings t.location).map .warning }⟩ := by
  have hbegun : t.begun document warnings s.environment =
      ⟨t.registry.collect document, s.environment,
        ⟨skippedReport t.location document, []⟩,
        warnings ++ document.definitionWarnings t.location⟩ := by
    rw [Task.begun, install_of_lists hlists]
  rw [step_poll_of_text ht htext hparse, hbegun, Task.look_of_no_loads]
  rfl

/-- The whole of an import on a page that lists all of its document. -/
theorem run_import_of_lists (s : Session κ) (config : Config) (location : String)
    (owner : Option (Owner κ)) (registry : Registry) {text : String} {document : Document}
    {warnings : List Warning}
    (hparse : Document.parse config.reserved text = .ok (document, warnings))
    (hlists : Lists s.environment location document) :
    s.run [.start config location owner registry, .fetched s.tasks.length (.ok text),
        .poll s.tasks.length] =
      ⟨s.environment, s.tasks ++ [{
        config, location, owner
        registry := registry.collect document
        stage := .finished (skippedReport location document)
        notices := (warnings ++ document.definitionWarnings location).map .warning }]⟩ := by
  let started : Task κ := ⟨config, location, owner, registry, .fetching none, []⟩
  let fetched : Task κ := ⟨config, location, owner, registry, .fetching (some (.ok text)), []⟩
  have hstarted : (s.tasks ++ [started])[s.tasks.length]? = some started :=
    List.getElem?_concat_length
  have hfetched : (s.tasks ++ [fetched])[s.tasks.length]? = some fetched :=
    List.getElem?_concat_length
  have hset (t t' : Task κ) : (s.tasks ++ [t]).set s.tasks.length t' = s.tasks ++ [t'] := by simp
  have harrives : (s.step (.start config location owner registry)).step
      (.fetched s.tasks.length (.ok text)) = ⟨s.environment, s.tasks ++ [fetched]⟩ := by
    rw [step, step, update_of_getElem? hstarted, hset]
    rfl
  have hpolled : Session.step ⟨s.environment, s.tasks ++ [fetched]⟩ (.poll s.tasks.length) = _ :=
    step_poll_of_lists hfetched rfl hparse hlists
  rw [hset] at hpolled
  have hsteps : s.run [.start config location owner registry, .fetched s.tasks.length (.ok text),
      .poll s.tasks.length] = ((s.step (.start config location owner registry)).step
        (.fetched s.tasks.length (.ok text))).step (.poll s.tasks.length) := rfl
  rw [hsteps, harrives, hpolled]
  rfl

/-- An import that has ended with a report leaves what its document defines in its registry, and a
page that lists all of the document. -/
theorem collected_of_finished {env : Environment} {before : List (Event κ)} {t₀ t : Task κ}
    {text : String} {document : Document} {warnings : List Warning}
    (ht₀ : ((opened env).run before).tasks[i]? = some t₀)
    (htext : t₀.stage = .fetching (some (.ok text)))
    (hparse : Document.parse t₀.config.reserved text = .ok (document, warnings))
    {es : List (Event κ)} (ht : (((opened env).run before).run es).tasks[i]? = some t)
    {r : Report} (hr : t.stage = .finished r) :
    t.registry = t₀.registry.collect document ∧ r.snippets = document.registeredNames ∧
      Lists (((opened env).run before).run es).environment t₀.location document := by
  obtain ⟨earlier, later, rfl, _, hbegins, _, hfollowing⟩ :=
    exists_following ht₀ htext hparse ht (by rw [Task.ready, hr])
  generalize (opened env).run before = s at *
  obtain ⟨_, hreport, hregistry, _⟩ := hfollowing.of_finished ht hr
  refine ⟨hregistry, by rw [hreport]; rfl, ?_⟩
  -- what the first poll listed stays listed
  have hlists := lists_step hbegins htext hparse
  rw [run_append_cons]
  exact hlists.grows (changes_run _ later).grows

end Session

/-- Once an import has ended with a report, another one of the same location and text ends at its
first poll.  It leaves every entry of the registry and the page as they were, calls no function, and
reports the same snippets and all references as skipped. -/
theorem import_again_changes_nothing {env : Environment} (before : List (Event κ))
    (fetch : Fetcher) {i : Nat} {t₀ : Task κ}
    (ht₀ : ((Session.opened env).run before).tasks[i]? = some t₀)
    (htext : t₀.stage = .fetching (some (fetch t₀.location))) {es : List (Event κ)} {t : Task κ}
    (ht : (((Session.opened env).run before).run es).tasks[i]? = some t) {r : Report}
    (hr : t.stage = .finished r) (owner : Option (Owner κ)) :
    let s := ((Session.opened env).run before).run es
    let j := s.tasks.length
    let s' := s.run [.start t₀.config t₀.location owner t.registry,
      .fetched j (fetch t₀.location), .poll j]
    ∃ text document warnings, fetch t₀.location = .ok text ∧
      Document.parse t₀.config.reserved text = .ok (document, warnings) ∧
      ∃ t' : Task κ, s'.tasks[j]? = some t' ∧
        t'.stage = .finished {
          snippets := r.snippets
          stylesheetsSkipped := resolved t₀.location document.stylesheets
          scriptsSkipped := resolved t₀.location document.scripts } ∧
        s'.environment = s.environment ∧
        (∀ name, t'.registry.get? name = t.registry.get? name) ∧ t'.calls = [] := by
  intro s j s'
  obtain ⟨text, document, warnings, hfetch, hparse⟩ := exists_parse_of_finished ht₀ htext ht hr
  rw [hfetch] at htext
  obtain ⟨hregistry, hsnippets, hlists⟩ :=
    Session.collected_of_finished ht₀ htext hparse ht hr
  -- the registry collects the same document once more, and nothing else happens
  have hagain := s.run_import_of_lists t₀.config t₀.location owner t.registry hparse hlists
  rw [← hfetch, skippedReport, ← hsnippets] at hagain
  have hself := congrArg (fun s : Session κ => s.tasks[j]?) hagain
  rw [List.getElem?_concat_length] at hself
  have hpage := congrArg Session.environment hagain
  refine ⟨text, document, warnings, hfetch, hparse, _, hself, rfl, hpage, ?_, ?_⟩
  · intro name
    rw [hregistry, Registry.get?_collect_collect]
  · exact callsOf_warnings _

/-- A document with a snippet and a script that fails, imported twice. -/
theorem import_again_changes_nothing_of_failed_script :
    let env : Environment := ⟨[], [], ["x"], false, [], []⟩
    let text := "<r><dht:snippet name='n'><p/></dht:snippet><dht:script src='x'/></r>"
    let fetch := Fetcher.ofResources [("t", text)]
    let s : Session Unit := (Session.opened env).run
      [.start {} "t" none {}, .fetched 0 (fetch "t"), .poll 0]
    ∃ t t' : Task Unit, s.tasks[0]? = some t ∧
      t.stage = .finished { snippets := ["n"], scriptsFailed := ["x"] } ∧
      (s.run [.start {} "t" none t.registry, .fetched 1 (fetch "t"), .poll 1]).tasks[1]? = some t' ∧
      t'.stage = .finished { snippets := ["n"], scriptsSkipped := ["x"] } := by
  intro env text fetch s
  -- of the document only its names and references matter
  have hread : ((Document.parse ⟨"dht"⟩ text).toOption.map fun d =>
      (d.1.registeredNames, d.1.stylesheets, d.1.scripts)) = some (["n"], [], [⟨"x", none⟩]) := by
    decide +kernel
  obtain ⟨document, warnings, hparse, hnames, hstylesheets, hscripts⟩ :=
    Document.exists_parse_of_names hread
  have hx : Location.resolve "t" "x" = "x" := by decide +kernel
  let t₀ : Task Unit := ⟨{}, "t", none, {}, .fetching (some (.ok text)), []⟩
  let before : List (Event Unit) := [.start {} "t" none {}, .fetched 0 (fetch "t")]
  have ht₀ : ((Session.opened env).run before).tasks[0]? = some t₀ := rfl
  have hbegun : t₀.begun document warnings env = ⟨({} : Registry).collect document,
      ⟨[], ["x"], ["x"], false, [⟨"x", some (.failed ⟨"x", "load error"⟩), false⟩], []⟩,
      ⟨{ snippets := ["n"] }, [⟨"x", none, 0, none⟩]⟩,
      warnings ++ document.definitionWarnings "t"⟩ := by
    simp [env, t₀, Task.begun, install, includeScript, hnames, hstylesheets, hscripts, hx,
      Environment.hasScript, Environment.insertScript, Environment.addScript, Environment.newLoad]
  obtain ⟨t, ht, hr⟩ : ∃ t : Task Unit, s.tasks[0]? = some t ∧
      t.stage = .finished { snippets := ["n"], scriptsFailed := ["x"] } := by
    have hsteps : s = ((Session.opened env).run before).step (.poll 0) := rfl
    have hpage : ((Session.opened env).run before).environment = env := rfl
    rw [hsteps, Session.step_poll_of_text ht₀ rfl hparse, hpage, hbegun]
    exact ⟨_, rfl, rfl⟩
  have hfirst : (((Session.opened env).run before).run [.poll 0]).tasks[0]? = some t := ht
  obtain ⟨text', parsed, _, hfetch, hparsed, t', ht', hr', _⟩ :=
    import_again_changes_nothing before fetch ht₀ rfl hfirst hr none
  obtain rfl : text = text' := Except.ok.inj hfetch
  obtain ⟨rfl, -⟩ := Prod.mk.inj (Except.ok.inj (hparse.symm.trans hparsed))
  refine ⟨t, t', ht, hr, ht', ?_⟩
  rw [hr', hstylesheets, hscripts]
  simp [t₀, resolved, hx]

end Transclude.Import
