/-
How imports come to an end.

An import that has begun waits for its loads, is dropped, or ends with a report.  The report is a
matter of the page alone: when an import ends, none of its loads waits, and its report tells what
each of them came to.  What they came to never changes, so the report of an import that ended long
ago can still be read off the page.  An import without a document ends with an error, and until then
and after it leaves everything as it is.

* `Follows` — how an import stands that has begun, as far as its report goes;
* `Follows.changes`, `Follows.poll`, `Follows.drop` — it stays so whatever happens;
* `Session.exists_beginning` — an import that has ended took its text at one of its polls;
* `Session.exists_following` — how it stands after that poll, and after the whole schedule.

Design notes: unlike what is known of calls of functions, this does not depend on the order in which
loads were completed, and so it holds on every page.
-/
import Transclude.Proofs.References
import Transclude.Proofs.Safety

namespace Transclude.Import

open Environment (Changes changes_forgetAll)
open Production (Notice)

variable {κ : Type}

/-! ### Failures -/

/-- The failed loads that notices warn of. -/
def failuresOf (ns : List (Notice κ)) : List Warning :=
  ns.filterMap fun
    | .warning (.scriptFailed src reason) => some (.scriptFailed src reason)
    | _ => none

theorem failuresOf_append (ns ms : List (Notice κ)) :
    failuresOf (ns ++ ms) = failuresOf ns ++ failuresOf ms := List.filterMap_append

theorem failuresOf_settled (owner : Option (Owner κ)) (l : ScriptLoad) (result : LoadResult) :
    failuresOf (settled owner l result) = [] := by
  obtain ⟨src, hook, load, known⟩ := l
  cases result with
  | failed e => rfl
  | loaded =>
    cases owner with
    | none => rfl
    | some owner =>
      cases hook with
      | none => rfl
      | some function =>
        show failuresOf (runHook owner src function) = []
        rw [runHook]
        cases owner.call? function (.string src) (scriptElement src) with
        | none => rfl
        | some called => simp [failuresOf, List.filterMap_map]

theorem failuresOf_flatMap_news (owner : Option (Owner κ)) (env : Environment)
    (ls : List ScriptLoad) : failuresOf (ls.flatMap (news owner env)) = [] := by
  induction ls with
  | nil => rfl
  | cons l ls ih =>
    rw [List.flatMap_cons, failuresOf_append, ih, List.append_nil, news]
    split
    · cases env.resultOf? l.load with
      | none => rfl
      | some result => exact failuresOf_settled owner l result
    · rfl

theorem failuresOf_failureWarnings (results : List (String × LoadResult)) :
    failuresOf ((failureWarnings results).map .warning : List (Notice κ)) =
      failureWarnings results := by
  induction results with
  | nil => rfl
  | cons x results ih =>
    obtain ⟨src, result⟩ := x
    cases result with
    | loaded => exact ih
    | failed e => exact congrArg (Warning.scriptFailed e.src e.reason :: ·) ih

/-- The warnings about a document are not about loads. -/
theorem failuresOf_of_parse {ns : Namespace} {text : String} {document : Document}
    {warnings : List Warning} (h : Document.parse ns text = .ok (document, warnings))
    (location : String) :
    failuresOf ((warnings ++ document.definitionWarnings location).map .warning : List (Notice κ)) =
      [] := by
  rw [Document.parse] at h
  cases hroot : Markup.parse text with
  | error e => simp [hroot, Except.map] at h
  | ok root =>
    simp only [hroot, Except.map, Except.ok.injEq, Prod.mk.injEq] at h
    obtain ⟨rfl, rfl⟩ := h
    rw [List.map_append, failuresOf_append]
    have hroot : failuresOf ((Document.warnings ns root).map .warning : List (Notice κ)) = [] := by
      simp [failuresOf, Document.warnings, Document.lacking]
    have hdefinition : ∀ d : Definition,
        failuresOf ((d.warnings location).map .warning : List (Notice κ)) = [] := by
      intro d
      rw [Definition.warnings]
      split
      · split
        · rfl
        · rfl
      · split
        · rfl
        · rfl
    rw [hroot, List.nil_append, Document.definitionWarnings, List.map_flatMap, failuresOf,
      List.filterMap_flatMap, List.flatMap_eq_nil_iff]
    exact fun d _ => hdefinition d

/-! ### Loads that an import holds -/

theorem Held.changes {mine : Nat → Prop} {env env' : Environment} {l : ScriptLoad}
    (h : Held env l) (hchanges : Changes mine env env') (hmine : ¬mine l.load) : Held env' l := by
  obtain ⟨e, he, hknown, hreleased⟩ := h
  obtain ⟨e', he', hlater⟩ := hchanges.load he
  refine ⟨e', he', ?_, ?_⟩
  · intro r hr
    exact hlater.result r (hknown r hr)
  · intro hr
    exact (hlater.released hmine).trans (hreleased hr)

/-- After a poll a load is held with what the poll found out about it. -/
theorem Held.seen {env : Environment} {l : ScriptLoad} (h : Held env l) (ls : List ScriptLoad) :
    Held (env.forgetAll (taken env ls)) (seen env l) := by
  obtain ⟨e, he, hknown, hreleased⟩ := h
  have hresult : env.resultOf? l.load = e.result := by
    rw [Environment.resultOf?, he, Option.bind_some]
  have hchanges : Changes (fun n => (env.resultOf? n).isSome) env
      (env.forgetAll (taken env ls)) :=
    changes_forgetAll env fun n hn => isSome_of_mem_taken hn
  obtain ⟨e', he', hlater⟩ := hchanges.load he
  refine ⟨e', he', ?_, ?_⟩
  · intro r hr
    exact hlater.result r (hresult ▸ hr)
  · -- a load without a result is not among those whose results were taken
    intro hnone
    have hwaits : env.resultOf? l.load = none := hnone
    have hunknown : l.result = none := by
      cases hl : l.result with
      | none => rfl
      | some r => rw [hresult, hknown r hl] at hwaits; cases hwaits
    rw [hlater.released (by simp [hwaits]), hreleased hunknown]

theorem resultsIn_map_seen (last env : Environment) (ls : List ScriptLoad) :
    resultsIn env (ls.map (seen last)) = resultsIn env ls := by
  rw [resultsIn, List.filterMap_map]
  rfl

theorem resultsIn_congr {env env' : Environment} {ls : List ScriptLoad}
    (h : ∀ l ∈ ls, env'.resultOf? l.load = env.resultOf? l.load) :
    resultsIn env' ls = resultsIn env ls := by
  refine List.filterMap_congr fun l hl => ?_
  rw [h l hl]

theorem resultsIn_forgetAll (env : Environment) (ns : List Nat) (ls : List ScriptLoad) :
    resultsIn (env.forgetAll ns) ls = resultsIn env ls :=
  resultsIn_congr fun l _ => Environment.resultOf?_forgetAll env ns l.load

/-- What settled loads came to stays. -/
theorem resultOf?_of_changes {mine : Nat → Prop} {env env' : Environment}
    (hchanges : Changes mine env env') {n : Nat} (h : (env.resultOf? n).isSome) :
    env'.resultOf? n = env.resultOf? n := by
  obtain ⟨r, hr⟩ := Option.isSome_iff_exists.mp h
  rw [hr, hchanges.resultOf? hr]

/-! ### Imports that have begun -/

/-- The report at the end of an import, when its loads have come to these results. -/
def Report.ended (r : Report) (results : List (String × LoadResult)) : Report :=
  { r with scriptsLoaded := loadedOf results, scriptsFailed := failedOf results }

/-- How far an import can have come that has begun: as long as it waits it holds its loads, and at
its end its report tells what they came to. -/
inductive Stands (begun : Begun) (env : Environment) : Stage → Prop where
  | joining (last : Environment) (h : ∀ l ∈ begun.progress.loads, Held env (seen last l)) :
      Stands begun env (.joining ⟨begun.progress.report, begun.progress.loads.map (seen last)⟩)
  | finished (h : ∀ l ∈ begun.progress.loads, (env.resultOf? l.load).isSome) :
      Stands begun env
        (.finished (begun.progress.report.ended (resultsIn env begun.progress.loads)))
  | dropped : Stands begun env .dropped

/-- How an import stands that has begun, as far as its report goes. -/
structure Follows (begun : Begun) (env : Environment) (t : Task κ) : Prop where
  registry : t.registry = begun.registry
  stage : Stands begun env t.stage
  /-- It warns of the failed loads at its end, in document order. -/
  failures : failuresOf t.notices = closing begun.progress.loads env t.stage

section

variable {begun : Begun} {env env' : Environment} {t : Task κ}

/-- Changes of the page that stop waiting for no load of the import leave it as it is. -/
theorem Follows.changes {mine : Nat → Prop} (h : Follows begun env t)
    (hchanges : Changes mine env env') (hmine : ∀ l ∈ begun.progress.loads, ¬mine l.load) :
    Follows begun env' t := by
  obtain ⟨hregistry, hstage, hfailures⟩ := h
  refine ⟨hregistry, ?_, ?_⟩
  · generalize t.stage = stage at hstage
    cases hstage with
    | joining last hheld =>
      exact .joining last fun l hl => (hheld l hl).changes hchanges (hmine l hl)
    | finished hsettled =>
      have hsame := fun l hl => resultOf?_of_changes hchanges (hsettled l hl)
      rw [← resultsIn_congr hsame]
      exact .finished fun l hl => by rw [hsame l hl]; exact hsettled l hl
    | dropped => exact .dropped
  · rw [hfailures]
    generalize t.stage = stage at hstage
    cases hstage with
    | joining last hheld => rfl
    | finished hsettled =>
      have hsame := fun l hl => resultOf?_of_changes hchanges (hsettled l hl)
      rw [closing, closing, resultsIn_congr hsame]
    | dropped => rfl

/-- A look at the loads ends the import if none of them waits. -/
theorem Follows.look (h : Follows begun env t) {p : Progress} (ht : t.stage = .joining p)
    (hnumbers : (begun.progress.loads.map ScriptLoad.load).Nodup) :
    Follows begun (t.look env p).1 (t.look env p).2 := by
  obtain ⟨hregistry, hstage, hfailures⟩ := h
  rw [ht] at hstage hfailures
  cases hstage with
  | joining last hheld =>
    have hloads : ∀ l ∈ begun.progress.loads.map (seen last), Held env l :=
      List.forall_mem_map.mpr hheld
    have hnodup : ((begun.progress.loads.map (seen last)).map ScriptLoad.load).Nodup := by
      rw [List.map_map]
      exact hnumbers
    -- the import comes to its end, or it goes on with what it knows now
    by_cases hsettled : ∀ l ∈ begun.progress.loads.map (seen last), (env.resultOf? l.load).isSome
    · have hpoll := poll_of_settled (p := ⟨begun.progress.report, _⟩) hloads hnodup t.owner hsettled
      rw [resultsIn_map_seen] at hpoll
      simp only [Task.look, hpoll, Stage.ofStatus]
      refine ⟨hregistry, ?_, ?_⟩
      · have hend : ∀ l ∈ begun.progress.loads,
            ((env.forgetAll (taken env (begun.progress.loads.map (seen last)))).resultOf?
              l.load).isSome := by
          intro l hl
          rw [Environment.resultOf?_forgetAll]
          exact List.forall_mem_map.mp hsettled l hl
        have hfinished := Stands.finished hend
        rwa [resultsIn_forgetAll] at hfinished
      · simp only [failuresOf_append, failuresOf_flatMap_news, failuresOf_failureWarnings]
        rw [hfailures, closing, resultsIn_forgetAll]
        rfl
    · have hpending : ∃ l ∈ begun.progress.loads.map (seen last), env.resultOf? l.load = none := by
        simpa using hsettled
      have hpoll := poll_of_pending (p := ⟨begun.progress.report, _⟩) hloads hnodup t.owner hpending
      simp only [Task.look, hpoll, Stage.ofStatus]
      refine ⟨hregistry, ?_, ?_⟩
      · rw [List.map_map]
        exact .joining env fun l hl => (hheld l hl).seen _
      · simp only [failuresOf_append, failuresOf_flatMap_news]
        rw [hfailures]
        rfl

theorem Follows.poll (h : Follows begun env t)
    (hnumbers : (begun.progress.loads.map ScriptLoad.load).Nodup) :
    Follows begun (t.poll env).1 (t.poll env).2 := by
  have hstage := h.stage
  generalize ht : t.stage = stage at hstage
  cases hstage with
  | joining last hheld =>
    rw [Task.poll, ht]
    exact h.look ht hnumbers
  | finished hsettled => rwa [Task.poll, ht]
  | dropped => rwa [Task.poll, ht]

theorem Follows.drop (h : Follows begun env t) : Follows begun (t.drop env).1 (t.drop env).2 := by
  have hstage := h.stage
  generalize ht : t.stage = stage at hstage
  cases hstage with
  | joining last hheld =>
    rw [Task.drop, ht]
    refine ⟨h.registry, .dropped, ?_⟩
    have hfailures := h.failures
    rw [ht] at hfailures
    exact hfailures
  | finished hsettled => rwa [Task.drop, ht]
  | dropped => rwa [Task.drop, ht]

theorem Follows.receive (h : Follows begun env t) (text : Except FetchError String) :
    t.receive text = t := by
  have hstage := h.stage
  generalize ht : t.stage = stage at hstage
  cases hstage with
  | joining last hheld => rw [Task.receive, ht]
  | finished hsettled => rw [Task.receive, ht]
  | dropped => rw [Task.receive, ht]

/-- The import at its beginning. -/
theorem follows_join {text : String} {document : Document} {warnings : List Warning}
    (hparse : Document.parse t.config.reserved text = .ok (document, warnings))
    (hquiet : t.notices = []) (page : Environment) :
    Follows (t.begun document warnings page) (t.begun document warnings page).environment
      (t.join (t.begun document warnings page)) := by
  have hinserted := t.inserted_begun document warnings page
  have hfailures : failuresOf ((t.begun document warnings page).warnings.map .warning :
      List (Notice κ)) = [] := failuresOf_of_parse hparse t.location
  generalize t.begun document warnings page = begun at hinserted hfailures
  -- an empty page has no results, so that nothing is known of the loads
  have hsame : begun.progress.loads.map (seen {}) = begun.progress.loads := by
    have hunknown : ∀ l ∈ begun.progress.loads, seen {} l = l :=
      fun l hl => seen_of_unknown (hinserted.unknown l hl)
    rw [List.map_congr_left hunknown, List.map_id']
  refine ⟨rfl, ?_, ?_⟩
  · have hheld : ∀ l ∈ begun.progress.loads, Held begun.environment (seen {} l) := by
      intro l hl
      have hload := hinserted.getElem?_loads hl
      refine ⟨_, hload, ?_, fun _ => rfl⟩
      intro r hr
      cases hr
    have hjoining := Stands.joining {} hheld
    rw [hsame] at hjoining
    exact hjoining
  · rw [Task.join, failuresOf_append, hquiet, hfailures]
    rfl

end

/-! ### Sessions with an import that has begun -/

namespace Session

variable {i : Nat} {s : Session κ} {begun : Begun}

/-- How a session stands after import `i` has begun, as far as the report of the import goes. -/
structure Following (i : Nat) (begun : Begun) (s : Session κ) : Prop where
  numbers : (begun.progress.loads.map ScriptLoad.load).Nodup
  apart : s.Apart i begun.progress.loads
  follows : ∃ t : Task κ, s.tasks[i]? = some t ∧ Follows begun s.environment t

theorem Following.step (h : s.Following i begun) (e : Event κ) : (s.step e).Following i begun := by
  obtain ⟨hnumbers, hapart, t, ht, hfollows⟩ := h
  refine ⟨hnumbers, hapart.step e, ?_⟩
  by_cases hturn : e.task? = some i
  · rcases Event.eq_of_task? hturn with ⟨text, rfl⟩ | rfl | rfl
    · refine ⟨_, getElem?_update ht _, ?_⟩
      rw [Session.step, environment_update ht, hfollows.receive text]
      exact hfollows
    · refine ⟨_, getElem?_update ht _, ?_⟩
      rw [Session.step, environment_update ht]
      exact hfollows.poll hnumbers
    · refine ⟨_, getElem?_update ht _, ?_⟩
      rw [Session.step, environment_update ht]
      exact hfollows.drop
  · -- another turn may take results, but not those of these loads
    obtain ⟨mine, hchanges, hmine⟩ := hapart.changes hturn
    exact ⟨t, (s.steps_step e).getElem?_tasks ht hturn, hfollows.changes hchanges hmine⟩

theorem Following.run (h : s.Following i begun) (es : List (Event κ)) :
    (s.run es).Following i begun :=
  run_keeps (fun _ e hs => hs.step e) h es

/-- What holds after the poll with which an import begins. -/
theorem following_begin {t : Task κ} {text : String} {document : Document}
    {warnings : List Warning} (ht : s.tasks[i]? = some t)
    (htext : t.stage = .fetching (some (.ok text)))
    (hparse : Document.parse t.config.reserved text = .ok (document, warnings))
    (hquiet : t.notices = []) (hknown : s.Known) :
    (s.step (.poll i)).Following i (t.begun document warnings s.environment) := by
  have hinserted := t.inserted_begun document warnings s.environment
  have hfollows := follows_join hparse hquiet s.environment
  have happart := apart_begin ht htext hparse hknown
  have hstep := step_poll_of_text ht htext hparse
  generalize t.begun document warnings s.environment = begun at *
  have hlooked := hfollows.look rfl hinserted.nodup_numbers
  refine ⟨hinserted.nodup_numbers, happart, ?_⟩
  rw [hstep]
  exact ⟨_, List.getElem?_set_self (List.getElem?_eq_some_iff.mp ht).1, hlooked⟩

/-- What is left of an import that has come to its end. -/
theorem Following.of_finished {t₀ t : Task κ} {document : Document} {warnings : List Warning}
    {page : Environment} {r : Report} (h : s.Following i (t₀.begun document warnings page))
    (ht : s.tasks[i]? = some t) (hr : t.stage = .finished r) :
    let inserted := (t₀.begun document warnings page).progress.loads
    (∀ l ∈ inserted, (s.environment.resultOf? l.load).isSome) ∧
      r = reportOn t₀.location document page (resultsIn s.environment inserted) ∧
      t.registry = t₀.registry.collect document ∧
      failuresOf t.notices = failureWarnings (resultsIn s.environment inserted) := by
  obtain ⟨_, _, u, hu, hregistry, hstage, hfailures⟩ := h
  have hsame : some u = some t := hu.symm.trans ht
  cases hsame
  rw [hr] at hstage hfailures
  cases hstage with
  | finished hsettled =>
    obtain ⟨hcollected, _, hreport, _⟩ :=
      install_eq t₀.location document t₀.registry page
    have hbegun : (t₀.begun document warnings page).progress.report =
      reportOn t₀.location document page [] := hreport
    refine ⟨hsettled, ?_, hregistry.trans hcollected, hfailures⟩
    rw [hbegun]
    rfl

theorem run_append_cons (s : Session κ) (es : List (Event κ)) (e : Event κ) (fs : List (Event κ)) :
    s.run (es ++ e :: fs) = ((s.run es).step e).run fs := run_append s es (e :: fs)

/-- An import that was dropped stays so. -/
theorem dropped_run {t : Task κ} (ht : s.tasks[i]? = some t) (hstage : t.stage = .dropped)
    (es : List (Event κ)) : ∃ t' : Task κ, (s.run es).tasks[i]? = some t' ∧ t'.stage = .dropped := by
  refine run_keeps (P := fun s => ∃ t' : Task κ, s.tasks[i]? = some t' ∧ t'.stage = .dropped) ?_
    ⟨t, ht, hstage⟩ es
  rintro s e ⟨u, hu, hdropped⟩
  obtain ⟨u', hu', hcase⟩ := exists_step hu e
  refine ⟨u', hu', ?_⟩
  rcases hcase with rfl | ⟨text, rfl⟩ | ⟨_, rfl⟩ | ⟨_, rfl⟩
  · exact hdropped
  · simp [Task.receive, hdropped]
  · simp [Task.poll, hdropped]
  · simp [Task.drop, hdropped]

/-- An import that has come to its end took its text at one of its polls, and before that it was as
when the text arrived. -/
theorem exists_beginning {t₀ t : Task κ} {fetched : Except FetchError String}
    (ht₀ : s.tasks[i]? = some t₀) (htext : t₀.stage = .fetching (some fetched))
    {es : List (Event κ)} (ht : (s.run es).tasks[i]? = some t) (hready : t.ready = true) :
    ∃ earlier later, es = earlier ++ .poll i :: later ∧ .poll i ∉ earlier ∧
      (s.run earlier).tasks[i]? = some t₀ := by
  -- the first poll of the schedule is the one; nothing before it but a drop changes the import
  induction es generalizing s with
  | nil =>
    have hsame : some t₀ = some t := ht₀.symm.trans ht
    cases hsame
    simp [Task.ready, htext] at hready
  | cons e es ih =>
    by_cases he : e = .poll i
    · exact ⟨[], es, by rw [he]; rfl, by simp, ht₀⟩
    · obtain ⟨t', ht', hcase⟩ := exists_step ht₀ e
      have hstill : t' = t₀ ∨ t'.stage = .dropped := by
        rcases hcase with rfl | ⟨text, rfl⟩ | ⟨hpoll, _⟩ | ⟨_, rfl⟩
        · exact .inl rfl
        · exact .inl (by rw [Task.receive, htext])
        · exact absurd hpoll he
        · exact .inr (by rw [Task.drop, htext])
      rcases hstill with rfl | hdropped
      · obtain ⟨earlier, later, rfl, hearlier, hbegins⟩ := ih ht' ht
        refine ⟨e :: earlier, later, rfl, ?_, hbegins⟩
        rw [List.mem_cons, not_or]
        exact ⟨Ne.symm he, hearlier⟩
      · -- a dropped import does not come to its end
        obtain ⟨u, hu, hstage⟩ := dropped_run ht' hdropped es
        have hsame : some u = some t := hu.symm.trans ht
        cases hsame
        simp [Task.ready, hstage] at hready

/-- An import with a document that has come to its end began with one of its polls, and since then
it stands as such an import does. -/
theorem exists_following {env : Environment} {before : List (Event κ)} {t₀ t : Task κ}
    {text : String} {document : Document} {warnings : List Warning}
    (ht₀ : ((opened env).run before).tasks[i]? = some t₀)
    (htext : t₀.stage = .fetching (some (.ok text)))
    (hparse : Document.parse t₀.config.reserved text = .ok (document, warnings))
    {es : List (Event κ)} (ht : (((opened env).run before).run es).tasks[i]? = some t)
    (hready : t.ready = true) :
    let s := (opened env).run before
    ∃ earlier later, es = earlier ++ .poll i :: later ∧ .poll i ∉ earlier ∧
      (s.run earlier).tasks[i]? = some t₀ ∧
      ((s.run earlier).step (.poll i)).Following i
        (t₀.begun document warnings (s.run earlier).environment) ∧
      (s.run es).Following i (t₀.begun document warnings (s.run earlier).environment) := by
  intro s
  obtain ⟨earlier, later, rfl, hearlier, hbegins⟩ := exists_beginning ht₀ htext ht hready
  have hreached : s.run earlier = (opened env).run (before ++ earlier) := by rw [run_append]
  have hquiet : t₀.notices = [] :=
    quiet_run env before t₀ (List.mem_of_getElem? ht₀) _ htext
  have hknown : (s.run earlier).Known := by
    rw [hreached]
    exact known_run env (before ++ earlier)
  have hfollowing := following_begin hbegins htext hparse hquiet hknown
  refine ⟨earlier, later, rfl, hearlier, hbegins, hfollowing, ?_⟩
  rw [run_append_cons]
  exact hfollowing.run later

end Session

/-- An import that begins has a document. -/
theorem exists_parse_of_beginWith {config : Config} {location : String}
    {fetched : Except FetchError String} {registry : Registry} {env : Environment} {begun : Begun}
    (h : beginWith config location fetched registry env = .ok begun) :
    ∃ text document warnings, fetched = .ok text ∧
      Document.parse config.reserved text = .ok (document, warnings) := by
  cases fetched with
  | error cause => cases h
  | ok text =>
    rw [beginWith] at h
    cases hparse : Document.parse config.reserved text with
    | error cause =>
      rw [hparse] at h
      cases h
    | ok parsed => exact ⟨text, parsed.1, parsed.2, rfl, hparse⟩

/-- Whether an import cannot begin depends on nothing but its text. -/
theorem beginWith_eq_error {config : Config} {location : String}
    {fetched : Except FetchError String} {registry : Registry} {env : Environment} {e : Error}
    (h : beginWith config location fetched registry env = .error e) (registry' : Registry)
    (env' : Environment) : beginWith config location fetched registry' env' = .error e := by
  cases fetched with
  | error cause => exact h
  | ok text =>
    rw [beginWith] at h ⊢
    cases hparse : Document.parse config.reserved text with
    | error cause =>
      rw [hparse] at h
      exact h
    | ok parsed =>
      rw [hparse] at h
      cases h

/-- How an import stands that cannot begin: nothing of it changes but its stage. -/
def Task.Barren (t₀ : Task κ) (e : Error) (t : Task κ) : Prop :=
  t = t₀ ∨ t = { t₀ with stage := .failed e } ∨ t = { t₀ with stage := .dropped }

section

variable {t₀ t : Task κ} {fetched : Except FetchError String} {e : Error}
  (htext : t₀.stage = .fetching (some fetched))

include htext

theorem Task.Barren.ne_finished (h : t₀.Barren e t) (r : Report) : t.stage ≠ .finished r := by
  rcases h with rfl | rfl | rfl
  · simp [htext]
  · simp
  · simp

theorem Task.Barren.receive (h : t₀.Barren e t) (text : Except FetchError String) :
    t₀.Barren e (t.receive text) := by
  rcases h with rfl | rfl | rfl
  · exact .inl (by rw [Task.receive, htext])
  · exact .inr (.inl rfl)
  · exact .inr (.inr rfl)

theorem Task.Barren.drop (h : t₀.Barren e t) (env : Environment) :
    t₀.Barren e (t.drop env).2 := by
  rcases h with rfl | rfl | rfl
  · exact .inr (.inr (by rw [Task.drop, htext]))
  · exact .inr (.inl rfl)
  · exact .inr (.inr rfl)

variable {registry : Registry} {page : Environment}
  (herror : beginWith t₀.config t₀.location fetched registry page = .error e)

include herror

/-- Its polls leave the page as it is. -/
theorem Task.Barren.poll (h : t₀.Barren e t) (env : Environment) :
    (t.poll env).1 = env ∧ t₀.Barren e (t.poll env).2 := by
  rcases h with rfl | rfl | rfl
  · have hpoll : t.poll env = (env, { t with stage := .failed e }) := by
      rw [Task.poll, htext]
      simp only [beginWith_eq_error herror]
    rw [hpoll]
    exact ⟨rfl, .inr (.inl rfl)⟩
  · exact ⟨rfl, .inr (.inl rfl)⟩
  · exact ⟨rfl, .inr (.inr rfl)⟩

theorem Session.barren_run {i : Nat} {s : Session κ} (ht₀ : s.tasks[i]? = some t₀)
    (es : List (Event κ)) : ∃ t : Task κ, (s.run es).tasks[i]? = some t ∧ t₀.Barren e t := by
  refine run_keeps (P := fun s => ∃ t : Task κ, s.tasks[i]? = some t ∧ t₀.Barren e t) ?_
    ⟨t₀, ht₀, .inl rfl⟩ es
  rintro s event ⟨t, ht, hbarren⟩
  obtain ⟨t', ht', hcase⟩ := exists_step ht event
  refine ⟨t', ht', ?_⟩
  rcases hcase with rfl | ⟨text, rfl⟩ | ⟨_, rfl⟩ | ⟨_, rfl⟩
  · exact hbarren
  · exact hbarren.receive htext text
  · exact (hbarren.poll htext herror s.environment).2
  · exact hbarren.drop htext s.environment

end

/-- An import that ends with a report has a document. -/
theorem exists_parse_of_finished {i : Nat} {s : Session κ} {t₀ t : Task κ}
    {fetched : Except FetchError String} (ht₀ : s.tasks[i]? = some t₀)
    (htext : t₀.stage = .fetching (some fetched)) {es : List (Event κ)}
    (ht : (s.run es).tasks[i]? = some t) {r : Report} (hr : t.stage = .finished r) :
    ∃ text document warnings, fetched = .ok text ∧
      Document.parse t₀.config.reserved text = .ok (document, warnings) := by
  cases hbegin : beginWith t₀.config t₀.location fetched t₀.registry s.environment with
  | error cause =>
    obtain ⟨u, hu, hbarren⟩ := Session.barren_run htext hbegin ht₀ es
    have hsame : some u = some t := hu.symm.trans ht
    cases hsame
    exact absurd hr (hbarren.ne_finished htext r)
  | ok begun => exact exists_parse_of_beginWith hbegin

end Transclude.Import
