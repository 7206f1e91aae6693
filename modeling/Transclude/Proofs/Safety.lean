/-
The safety of the join.

While an import waits for its scripts, the snippets of its document are registered and all that the
document refers to is listed.  A poll finds the import at its end if and only if none of the loads
that it inserted waits.  By then the function of each script that loaded has been called, once, at a
poll after that; no other function is ever called.  All this holds for every schedule.

* `Session.Apart` — nobody but one import waits for the loads that it inserted;
* `Session.Joining` — a session in which an import has begun, and nobody else waits for its loads;
* `Session.Joining.run` — a session stays so through every schedule;
* `Session.Joining.ready_run` — when a poll finds the import at its end;
* `join_safe` — the safety of the join.

Design notes: the functions of owners run inside of a poll, on the element and the context that they
are called with, and do not reach the page.  So no function completes a load while its poll goes on;
loads come to something between polls only, by events of the schedule.
-/
import Transclude.Proofs.Join

namespace Transclude.Import

open Environment (Changes)
open Production (Notice)

variable {κ : Type}

/-! ### What events make of an import -/

namespace Session

variable {i : Nat} {s : Session κ}

/-- What an event makes of an import: only what it has to do when its turn comes. -/
theorem exists_step {t : Task κ} (ht : s.tasks[i]? = some t) (e : Event κ) :
    ∃ t' : Task κ, (s.step e).tasks[i]? = some t' ∧
      (t' = t ∨ (∃ text, t' = t.receive text) ∨
        (e = .poll i ∧ t' = (t.poll s.environment).2) ∨
        (e = .drop i ∧ t' = (t.drop s.environment).2)) := by
  by_cases hturn : e.task? = some i
  · rcases Event.eq_of_task? hturn with ⟨text, rfl⟩ | rfl | rfl
    · exact ⟨_, getElem?_update ht _, .inr (.inl ⟨text, rfl⟩)⟩
    · exact ⟨_, getElem?_update ht _, .inr (.inr (.inl ⟨rfl, rfl⟩))⟩
    · exact ⟨_, getElem?_update ht _, .inr (.inr (.inr ⟨rfl, rfl⟩))⟩
  · exact ⟨t, (s.steps_step e).getElem?_tasks ht hturn, .inl rfl⟩

end Session

namespace Task

variable {t : Task κ}

theorem receive_ne_dropped (ht : t.stage ≠ .dropped) (text : Except FetchError String) :
    (t.receive text).stage ≠ .dropped := by
  rw [receive]
  split
  · simp
  · exact ht

theorem poll_ne_dropped (ht : t.stage ≠ .dropped) (env : Environment) :
    (t.poll env).2.stage ≠ .dropped := by
  have hlook (t : Task κ) (env : Environment) (p : Progress) :
      (t.look env p).2.stage ≠ .dropped := by
    rw [look]
    cases (Import.poll t.owner env p).status <;> simp [Stage.ofStatus]
  rw [poll]
  split
  · split
    · simp
    · exact hlook _ _ _
  · exact hlook _ _ _
  · exact ht

/-- Whether an import that waits for its text gave notice of nothing. -/
def Quiet (t : Task κ) : Prop := ∀ text, t.stage = .fetching text → t.notices = []

theorem quiet_of_look (t : Task κ) (env : Environment) (p : Progress) : (t.look env p).2.Quiet := by
  intro text htext
  rw [look] at htext
  cases hstatus : (Import.poll t.owner env p).status <;> simp [Stage.ofStatus, hstatus] at htext

theorem Quiet.receive (h : t.Quiet) (text : Except FetchError String) : (t.receive text).Quiet := by
  rw [Task.receive]
  split
  · rename_i hstage
    exact fun _ _ => h none hstage
  · exact h

theorem Quiet.poll (h : t.Quiet) (env : Environment) : (t.poll env).2.Quiet := by
  rw [Task.poll]
  split
  · split
    · exact fun _ hfailed => by cases hfailed
    · exact quiet_of_look _ _ _
  · exact quiet_of_look _ _ _
  · exact h

theorem Quiet.drop (h : t.Quiet) (env : Environment) : (t.drop env).2.Quiet := by
  rw [Task.drop]
  split
  · exact fun _ hdropped => by cases hdropped
  · exact fun _ hdropped => by cases hdropped
  · exact h

theorem receive_same (t : Task κ) (text : Except FetchError String) :
    (t.receive text).notices = t.notices ∧ (t.receive text).ready = t.ready := by
  rw [receive]
  split
  · rename_i hstage
    simp [ready, hstage]
  · exact ⟨rfl, rfl⟩

theorem drop_same (t : Task κ) (env : Environment) :
    (t.drop env).2.notices = t.notices ∧ (t.drop env).2.ready = t.ready := by
  rw [drop]
  split
  · rename_i hstage
    simp [ready, hstage]
  · rename_i hstage
    simp [ready, hstage]
  · exact ⟨rfl, rfl⟩

end Task

namespace Session

variable {i : Nat} {s : Session κ}

/-- As long as nobody drops an import it is not dropped. -/
theorem not_dropped_run {t : Task κ} (ht : s.tasks[i]? = some t) (hstage : t.stage ≠ .dropped)
    {es : List (Event κ)} (hes : .drop i ∉ es) :
    ∃ t' : Task κ, (s.run es).tasks[i]? = some t' ∧ t'.stage ≠ .dropped := by
  induction es generalizing s t with
  | nil => exact ⟨t, ht, hstage⟩
  | cons e es ih =>
    rw [List.mem_cons, not_or] at hes
    obtain ⟨t', ht', hcase⟩ := exists_step ht e
    refine ih ht' ?_ hes.2
    rcases hcase with rfl | ⟨text, rfl⟩ | ⟨_, rfl⟩ | ⟨rfl, _⟩
    · exact hstage
    · exact Task.receive_ne_dropped hstage text
    · exact Task.poll_ne_dropped hstage s.environment
    · exact absurd rfl hes.1

/-- Between its polls an import gives notice of nothing and does not come to its end. -/
theorem same_step {t : Task κ} (ht : s.tasks[i]? = some t) {e : Event κ} (he : e ≠ .poll i) :
    ∃ t' : Task κ, (s.step e).tasks[i]? = some t' ∧ t'.notices = t.notices ∧
      t'.ready = t.ready := by
  obtain ⟨t', ht', hcase⟩ := exists_step ht e
  refine ⟨t', ht', ?_⟩
  rcases hcase with rfl | ⟨text, rfl⟩ | ⟨rfl, _⟩ | ⟨_, rfl⟩
  · exact ⟨rfl, rfl⟩
  · exact t.receive_same text
  · exact absurd rfl he
  · exact t.drop_same s.environment

theorem quiet_update (h : ∀ t ∈ s.tasks, t.Quiet)
    {f : Task κ → Environment → Environment × Task κ}
    (hf : ∀ t : Task κ, t.Quiet → (f t s.environment).2.Quiet) :
    ∀ t ∈ (s.update i f).tasks, t.Quiet := by
  cases ht : s.tasks[i]? with
  | none =>
    rw [update_of_none ht]
    exact h
  | some t =>
    rw [update_of_getElem? ht]
    intro t' ht'
    rcases List.mem_or_eq_of_mem_set ht' with hmem | rfl
    · exact h t' hmem
    · exact hf t (h t (List.mem_of_getElem? ht))

theorem quiet_step (h : ∀ t ∈ s.tasks, t.Quiet) (e : Event κ) :
    ∀ t ∈ (s.step e).tasks, t.Quiet := by
  cases e with
  | start config location owner registry =>
    intro t ht
    rcases List.mem_append.mp ht with hmem | hnew
    · exact h t hmem
    · rw [List.mem_singleton.mp hnew]
      exact fun _ _ => rfl
  | fetched j text => exact quiet_update h fun t ht => ht.receive text
  | poll j => exact quiet_update h fun t ht => ht.poll s.environment
  | drop j => exact quiet_update h fun t ht => ht.drop s.environment
  | complete src result => exact h
  | fail src => exact h
  | defer => exact h

/-- Imports give no notice before they begin. -/
theorem quiet_run (env : Environment) (es : List (Event κ)) :
    ∀ t ∈ ((opened env).run es).tasks, t.Quiet :=
  run_keeps (P := fun s => ∀ t ∈ s.tasks, t.Quiet) (fun _ e hs => quiet_step hs e)
    (by simp [opened]) es

end Session

/-! ### Sessions with an import that has begun -/

namespace Session

/-- Whether some loads have begun, and none but import `i` waits for any of them. -/
structure Apart (i : Nat) (loads : List ScriptLoad) (s : Session κ) : Prop where
  begun : ∀ l ∈ loads, l.load < s.environment.loads.length
  beside : ∀ (j : Nat) (t : Task κ), j ≠ i → s.tasks[j]? = some t →
    ∀ l ∈ loads, ¬t.Awaits l.load

variable {i : Nat} {loads : List ScriptLoad} {s : Session κ}

theorem Apart.step (h : s.Apart i loads) (e : Event κ) : (s.step e).Apart i loads where
  begun l hl := Nat.lt_of_lt_of_le (h.begun l hl) (s.steps_step e).changes.length_le
  beside j t' hj ht' l hl hawaits := by
    rcases (s.steps_step e).awaits ht' hawaits with ⟨t, ht, hawaits⟩ | hle
    · exact h.beside j t hj ht l hl hawaits
    · exact absurd (h.begun l hl) (Nat.not_lt.mpr hle)

/-- When it is not the turn of import `i`, nobody stops waiting for these loads. -/
theorem Apart.changes (h : s.Apart i loads) {e : Event κ} (hturn : e.task? ≠ some i) :
    ∃ mine, Changes mine s.environment (s.step e).environment ∧ ∀ l ∈ loads, ¬mine l.load := by
  refine ⟨_, (s.steps_step e).changes, ?_⟩
  rintro l hl (⟨j, t, hj, ht, hawaits⟩ | hle)
  · exact h.beside j t (fun hji => hturn (hji ▸ hj)) ht l hl hawaits
  · exact absurd (h.begun l hl) (Nat.not_lt.mpr hle)

section

variable {t : Task κ} {text : String} {document : Document} {warnings : List Warning}
  (ht : s.tasks[i]? = some t) (htext : t.stage = .fetching (some (.ok text)))
  (hparse : Document.parse t.config.reserved text = .ok (document, warnings))

include ht htext hparse

/-- The poll with which an import begins is its first look at its loads. -/
theorem step_poll_of_text :
    s.step (.poll i) =
      ⟨((t.join (t.begun document warnings s.environment)).look
          (t.begun document warnings s.environment).environment
          (t.begun document warnings s.environment).progress).1,
        s.tasks.set i ((t.join (t.begun document warnings s.environment)).look
          (t.begun document warnings s.environment).environment
          (t.begun document warnings s.environment).progress).2⟩ := by
  rw [step, update_of_getElem? ht, Task.poll_of_text htext hparse]

/-- Nobody else waits for loads that begin with an import. -/
theorem apart_begin (hknown : s.Known) :
    (s.step (.poll i)).Apart i (t.begun document warnings s.environment).progress.loads := by
  have hinserted := t.inserted_begun document warnings s.environment
  have hstep := step_poll_of_text ht htext hparse
  generalize t.begun document warnings s.environment = begun at hinserted hstep
  constructor
  · intro l hl
    have hlook := ((t.join begun).moves_look rfl begun.environment).changes.length_le
    rw [hstep]
    exact Nat.lt_of_lt_of_le (hinserted.lt_length hl) hlook
  · -- nobody waited for a load before it began
    intro j t' hj ht' l hl hawaits
    rw [hstep, List.getElem?_set_ne (Ne.symm hj)] at ht'
    exact absurd (hknown j t' ht' _ hawaits) (Nat.not_lt.mpr (hinserted.length_le hl))

end

/-- How a session stands after import `i` has begun: what holds of the import, and nobody else waits
for a load that it inserted. -/
structure Joining (i : Nat) (t₀ : Task κ) (begun : Begun) (s : Session κ) : Prop where
  consistent : s.environment.Consistent
  numbers : (begun.progress.loads.map ScriptLoad.load).Nodup
  inserted : ∀ l ∈ begun.progress.loads, l.load < s.environment.loads.length
  beside : ∀ (j : Nat) (t : Task κ), j ≠ i → s.tasks[j]? = some t →
    ∀ l ∈ begun.progress.loads, ¬t.Awaits l.load
  joined : ∃ (t : Task κ) (last : Environment) (heard : List ScriptLoad),
    s.tasks[i]? = some t ∧ Joined t₀ begun last heard s.environment t

variable {t₀ : Task κ} {begun : Begun}

theorem Joining.apart (h : s.Joining i t₀ begun) : s.Apart i begun.progress.loads :=
  ⟨h.inserted, h.beside⟩

/-- What an event leaves of the import that has begun. -/
theorem Joining.joined_step (h : s.Joining i t₀ begun) (e : Event κ) :
    ∃ (t : Task κ) (last : Environment) (heard : List ScriptLoad),
      (s.step e).tasks[i]? = some t ∧ Joined t₀ begun last heard (s.step e).environment t := by
  obtain ⟨t, last, heard, ht, hjoined⟩ := h.joined
  by_cases hturn : e.task? = some i
  · rcases Event.eq_of_task? hturn with ⟨text, rfl⟩ | rfl | rfl
    · refine ⟨_, last, heard, getElem?_update ht _, ?_⟩
      rw [step, environment_update ht, hjoined.receive text]
      exact hjoined
    · obtain ⟨⟨last', heard', hjoined'⟩, _⟩ := hjoined.poll h.consistent.nodup h.numbers
      refine ⟨_, last', heard', getElem?_update ht _, ?_⟩
      rw [step, environment_update ht]
      exact hjoined'
    · refine ⟨_, last, heard, getElem?_update ht _, ?_⟩
      rw [step, environment_update ht]
      exact hjoined.drop
  · obtain ⟨mine, hchanges, hmine⟩ := h.apart.changes hturn
    have hrests := (s.steps_step e).getElem?_tasks ht hturn
    exact ⟨t, last, heard, hrests, hjoined.changes hchanges hmine⟩

theorem Joining.step (h : s.Joining i t₀ begun) (e : Event κ) :
    (s.step e).Joining i t₀ begun where
  consistent := (s.steps_step e).changes.consistent h.consistent
  numbers := h.numbers
  inserted := (h.apart.step e).begun
  beside := (h.apart.step e).beside
  joined := h.joined_step e

/-- The session stays so through every schedule. -/
theorem Joining.run (h : s.Joining i t₀ begun) (es : List (Event κ)) :
    (s.run es).Joining i t₀ begun :=
  run_keeps (fun _ e hs => hs.step e) h es

section

variable {t : Task κ} {text : String} {document : Document} {warnings : List Warning}
  (ht : s.tasks[i]? = some t) (htext : t.stage = .fetching (some (.ok text)))
  (hparse : Document.parse t.config.reserved text = .ok (document, warnings))

include ht htext hparse

/-- What holds after the poll with which an import begins, which may be its end already. -/
theorem joining_begin (hconsistent : s.environment.Consistent) (hknown : s.Known) :
    (s.step (.poll i)).Joining i t (t.begun document warnings s.environment) ∧
      ∀ t' : Task κ, (s.step (.poll i)).tasks[i]? = some t' →
        (t'.ready = true ↔ ∀ l ∈ (t.begun document warnings s.environment).progress.loads,
          ((s.step (.poll i)).environment.resultOf? l.load).isSome) := by
  have hinserted := t.inserted_begun document warnings s.environment
  have hbegin : Changes (fun _ => True) s.environment
    (t.begun document warnings s.environment).environment :=
      t.changes_begun document warnings s.environment
  have hjoin := joined_join t document warnings s.environment
  have happart := apart_begin ht htext hparse hknown
  have hstep := step_poll_of_text ht htext hparse
  generalize t.begun document warnings s.environment = begun at *
  have hsteps := s.steps_step (.poll i)
  obtain ⟨hjoined, hready⟩ := hjoin.look rfl (hbegin.consistent hconsistent).nodup
    hinserted.nodup_numbers
  have hself : (s.step (.poll i)).tasks[i]? =
      some ((t.join begun).look begun.environment begun.progress).2 := by
    rw [hstep]
    exact List.getElem?_set_self (List.getElem?_eq_some_iff.mp ht).1
  have hafter : (s.step (.poll i)).environment =
      ((t.join begun).look begun.environment begun.progress).1 := by rw [hstep]
  rw [← hafter] at hjoined hready
  refine ⟨⟨hsteps.changes.consistent hconsistent, hinserted.nodup_numbers, happart.begun,
    happart.beside, ⟨_, _, _, hself, hjoined⟩⟩, ?_⟩
  intro t' ht'
  rw [hself] at ht'
  cases ht'
  exact hready

end

/-- A poll finds an import that has begun, and was not dropped, at its end if and only if no load of
it waits. -/
theorem Joining.ready_run {t₀ t t' : Task κ} {begun : Begun} (h : s.Joining i t₀ begun)
    (ht : s.tasks[i]? = some t) (hstage : t.stage ≠ .dropped)
    {es : List (Event κ)} (hes : .drop i ∉ es)
    (ht' : (s.run (es ++ [.poll i])).tasks[i]? = some t') :
    t'.ready = true ↔ ∀ l ∈ begun.progress.loads,
      ((s.run (es ++ [.poll i])).environment.resultOf? l.load).isSome := by
  rw [run_append] at ht' ⊢
  obtain ⟨u, hu, hdropped⟩ := not_dropped_run ht hstage hes
  obtain ⟨u', last, heard, hu', hjoined⟩ := (h.run es).joined
  have hsame : some u = some u' := hu.symm.trans hu'
  cases hsame
  have hpolled := getElem?_update hu Task.poll
  have hready := (hjoined.poll (h.run es).consistent.nodup h.numbers).2 hdropped
  rw [← environment_update hu Task.poll] at hready
  have hsame' : some (u.poll (s.run es).environment).2 = some t' := hpolled.symm.trans ht'
  cases hsame'
  exact hready

end Session

/-! ### Safety of the join -/

/-- The calls among notices. -/
def callsOf (ns : List (Notice κ)) : List (Call κ) :=
  ns.filterMap fun
    | .warning _ => none
    | .call c => some c

/-- The calls that an import gave notice of. -/
def Task.calls (t : Task κ) : List (Call κ) := callsOf t.notices

/-- The call of the function of a script, and what it calls in turn; without an owner that has the
function there is none. -/
def hookCalls (owner : Option (Owner κ)) (l : ScriptLoad) : List (Call κ) :=
  match owner, l.hook with
  | some owner, some function =>
    match owner.get? function with
    | some f =>
      ⟨function, scriptElement l.src, .string l.src⟩ ::
        (owner.run f (.string l.src) (scriptElement l.src)).2
    | none => []
  | _, _ => []

@[simp] theorem callsOf_append (ns ms : List (Notice κ)) :
    callsOf (ns ++ ms) = callsOf ns ++ callsOf ms := List.filterMap_append

@[simp] theorem callsOf_warnings (ws : List Warning) :
    callsOf (ws.map .warning : List (Notice κ)) = [] := by
  simp [callsOf, List.filterMap_map]

@[simp] theorem callsOf_calls (cs : List (Call κ)) : callsOf (cs.map .call) = cs := by
  simp [callsOf, List.filterMap_map]

theorem callsOf_settled (owner : Option (Owner κ)) (l : ScriptLoad) :
    callsOf (settled owner l .loaded) = hookCalls owner l := by
  obtain ⟨src, hook, load, result⟩ := l
  cases owner with
  | none => rfl
  | some owner =>
    cases hook with
    | none => rfl
    | some function =>
      simp only [settled, runHook, hookCalls, Owner.call?]
      cases owner.get? function with
      | none => rfl
      | some f => exact callsOf_calls _

theorem Joined.calls {t₀ t : Task κ} {begun : Begun} {last env : Environment}
    {heard : List ScriptLoad} (h : Joined t₀ begun last heard env t) :
    t.calls = t₀.calls ++ heard.flatMap (hookCalls t₀.owner) := by
  have hheard : callsOf (heard.flatMap fun l => settled t₀.owner l .loaded) =
      heard.flatMap (hookCalls t₀.owner) := by
    have hcalls : (fun l => callsOf (settled t₀.owner l .loaded)) = hookCalls t₀.owner :=
      funext (callsOf_settled t₀.owner)
    rw [callsOf, List.filterMap_flatMap, ← hcalls]
    rfl
  rw [Task.calls, h.notices]
  simp [Task.calls, hheard]

/-- What holds of an import that began as `t₀`, both as long as it waits for the loads of the
scripts it inserted and afterwards. -/
structure Safe (t₀ : Task κ) (document : Document) (inserted : List ScriptLoad)
    (env : Environment) (t : Task κ) : Prop where
  collected : t.registry = t₀.registry.collect document
  registered : ∀ name ∈ document.registeredNames, t.registry.contains name = true
  listed : Lists env t₀.location document
  /-- Functions were called for some of the scripts that loaded, once each, and for no others; at
  the end they were called for all of these. -/
  calls : ∃ heard : List ScriptLoad, heard.Nodup ∧
    (∀ l ∈ heard, l ∈ inserted ∧ env.resultOf? l.load = some .loaded) ∧
    t.calls = heard.flatMap (hookCalls t₀.owner) ∧
    (t.ready = true → ∀ l ∈ inserted, env.resultOf? l.load = some .loaded → l ∈ heard)
  /-- At its end no load of it waits. -/
  settled : t.ready = true → ∀ l ∈ inserted, (env.resultOf? l.load).isSome

theorem Joined.safe {t₀ t : Task κ} {document : Document} {warnings : List Warning}
    {page last env : Environment} {heard : List ScriptLoad}
    (h : Joined t₀ (t₀.begun document warnings page) last heard env t)
    (hnotices : t₀.notices = []) (hlisted : Lists env t₀.location document) :
    Safe t₀ document (t₀.begun document warnings page).progress.loads env t where
  collected := h.registry
  registered name hname := by
    rw [h.registry]
    exact Registry.contains_collect t₀.registry document hname
  listed := hlisted
  calls := by
    refine ⟨heard, h.hears.nodup, ?_, ?_, ?_⟩
    · intro l hl
      obtain ⟨hinserted, hloaded⟩ := (h.hears.mem l).mp hl
      exact ⟨hinserted, h.known _ _ hloaded⟩
    · rw [h.calls, Task.calls, hnotices]
      rfl
    · intro hready l hl hloaded
      obtain ⟨r, hr⟩ := Option.isSome_iff_exists.mp (h.isSome_of_ready hready l hl)
      have hsame := h.known _ _ hr
      rw [hloaded] at hsame
      cases hsame
      exact (h.hears.mem l).mpr ⟨hl, hr⟩
  settled hready l hl := by
    obtain ⟨r, hr⟩ := Option.isSome_iff_exists.mp (h.isSome_of_ready hready l hl)
    rw [h.known _ _ hr, Option.isSome_some]

/-- Whatever the schedule is, from its first poll with a text on an import is safe.  A poll finds it
at its end if and only if no load of it waits, and nothing but its polls makes it call functions.
The functions that a poll calls cannot complete loads inside of it: a completion is an event of its
own. -/
theorem join_safe {env : Environment} (henv : env.Consistent) (before after : List (Event κ))
    {i : Nat} {t₀ : Task κ} {text : String} {document : Document} {warnings : List Warning}
    (ht₀ : ((Session.opened env).run before).tasks[i]? = some t₀)
    (htext : t₀.stage = .fetching (some (.ok text)))
    (hparse : Document.parse t₀.config.reserved text = .ok (document, warnings)) :
    let page := ((Session.opened env).run before).environment
    let begun := t₀.begun document warnings page
    let s := ((Session.opened env).run before).run (.poll i :: after)
    Inserted t₀.location document.scripts page begun.environment begun.progress.loads ∧
      ∃ t : Task κ, s.tasks[i]? = some t ∧
        Safe t₀ document begun.progress.loads s.environment t ∧
        (∀ earlier, .poll i :: after = earlier ++ [.poll i] → .drop i ∉ after →
          (t.ready = true ↔
            ∀ l ∈ begun.progress.loads, (s.environment.resultOf? l.load).isSome)) ∧
        ∀ e, e ≠ .poll i → ∃ t' : Task κ, (s.step e).tasks[i]? = some t' ∧
          t'.calls = t.calls ∧ t'.ready = t.ready := by
  intro page begun s
  have hinserted := t₀.inserted_begun document warnings page
  have hpage : page.Consistent := (Session.changes_run (Session.opened env) before).consistent henv
  obtain ⟨hbegin, hready⟩ :=
    Session.joining_begin ht₀ htext hparse hpage (Session.known_run env before)
  obtain ⟨t, last, heard, ht, hjoined⟩ := (hbegin.run after).joined
  have hlisted : Lists s.environment t₀.location document :=
    (Session.lists_step ht₀ htext hparse).grows (Session.changes_run _ after).grows
  have hnotices : t₀.notices = [] :=
    Session.quiet_run env before t₀ (List.mem_of_getElem? ht₀) _ htext
  refine ⟨hinserted, t, ht, hjoined.safe hnotices hlisted, ?_, ?_⟩
  · intro earlier hsplit hdrop
    -- the poll is the one with which the import begins, or a later one
    cases earlier with
    | nil =>
      rw [List.nil_append, List.cons.injEq] at hsplit
      obtain ⟨_, rfl⟩ := hsplit
      exact hready t ht
    | cons e earlier =>
      rw [List.cons_append, List.cons.injEq] at hsplit
      obtain ⟨rfl, rfl⟩ := hsplit
      rw [List.mem_append, not_or] at hdrop
      have hstage : (t₀.poll page).2.stage ≠ .dropped := Task.poll_ne_dropped (by simp [htext]) page
      exact hbegin.ready_run (Session.getElem?_update ht₀ Task.poll) hstage hdrop.1 ht
  · intro e he
    obtain ⟨t', ht', hsame, hend⟩ := Session.same_step ht he
    exact ⟨t', ht', by rw [Task.calls, hsame, Task.calls], hend⟩

/-- A script loads between two polls: the second one finds the import at its end, and the function
of the script was called. -/
theorem join_safe_of_completed_script :
    let env : Environment := ⟨[], [], [], true, [], []⟩
    let text := "<r><dht:script src='x' onloadend='f'/></r>"
    let owner : Owner Unit := ⟨[("f", ())], fun _ _ e => (e, [])⟩
    let before := [.start {} "a/t" (some owner) {}, .fetched 0 (.ok text)]
    let s := ((Session.opened env).run before).run [.poll 0, .complete "a/x" .loaded, .poll 0]
    env.Consistent ∧ ∃ t : Task Unit, s.tasks[0]? = some t ∧ t.ready = true ∧
      t.calls = [⟨"f", scriptElement "a/x", .string "a/x"⟩] := by
  intro env text owner before s
  have henv : env.Consistent := Environment.consistent_of_completed_eq_nil rfl
  let t₀ : Task Unit := ⟨{}, "a/t", some owner, {}, .fetching (some (.ok text)), []⟩
  let document : Document := ⟨[], [], [⟨"x", some "f"⟩]⟩
  let l : ScriptLoad := ⟨"a/x", some "f", 0, none⟩
  have ht₀ : ((Session.opened env).run before).tasks[0]? = some t₀ := rfl
  have hparse : Document.parse ⟨"dht"⟩ text = .ok (document, []) :=
    Document.parse_of_references (by decide +kernel)
  have hloads : (t₀.begun document [] env).progress.loads = [l] := by decide +kernel
  have hloaded : s.environment.resultOf? l.load = some .loaded := by
    have hsteps : s = ((((Session.opened env).run before).step (.poll 0)).step
      (.complete "a/x" .loaded)).step (.poll 0) := rfl
    rw [hsteps, Session.step_poll_of_text ht₀ rfl hparse]
    decide +kernel
  obtain ⟨_, t, ht, hsafe, hready, _⟩ :=
    join_safe henv before [.complete "a/x" .loaded, .poll 0] ht₀ rfl hparse
  have hend : t.ready = true := by
    refine (hready [.poll 0, .complete "a/x" .loaded] rfl (by simp)).mpr fun m hm => ?_
    have hm' : m ∈ [l] := hloads ▸ hm
    rw [List.mem_singleton.mp hm', hloaded, Option.isSome_some]
  obtain ⟨heard, hnodup, hmem, hcalls, hall⟩ := hsafe.calls
  have hheard : heard = [l] := by
    refine List.perm_singleton.mp ((List.perm_ext_iff_of_nodup hnodup (by simp)).mpr fun m => ?_)
    refine ⟨fun hm => hloads ▸ (hmem m hm).1, fun hm => ?_⟩
    rw [List.mem_singleton.mp hm]
    exact hall hend l (hloads ▸ List.mem_singleton_self l) hloaded
  refine ⟨henv, t, ht, hend, ?_⟩
  rw [hcalls, hheard]
  rfl

end Transclude.Import
