/-
Imports that share a page.

Any number of imports run on one environment.  An import is started, waits for the text of its
template, is polled now and then, and may be dropped at any time.  Between two polls of one import
the others are polled, scripts are completed, and the page may come to defer loads or to fail them.
A session is the environment with its imports; a schedule is a list of events.

* `Task.poll` — one poll of an import: the first one that finds the text carries out the whole
  beginning and looks at the loads at once; every later one has a look at them;
* `Session.step`, `Session.run` — what an event does, and what a schedule does;
* `Task.Moves` — what an import can do when its turn comes;
* `Session.Steps` — what an event can do: it changes the page only as `Environment.Change` says, and
  nobody but an import itself stops waiting for the loads it inserted;
* `Session.listed_once` — whatever the schedule is, no resource is listed twice, and none moves.

Design notes: a poll is one event, since nothing else runs between the suspension points of an
import.  Fetching is left open: a text may arrive at any time, and any text may.  Functions of owners
do not reach the page, so that a poll changes it by its looks at the loads alone.
-/
import Transclude.Proofs.Progress

namespace Transclude.Import

open Environment (Changes changes_forgetAll)
open Production (Notice)

variable {κ : Type}

/-! ### Imports under way -/

/-- How far an import has come. -/
inductive Stage where
  /-- It waits for its text, or did not look at it yet. -/
  | fetching (text : Option (Except FetchError String))
  | joining (p : Progress)
  | failed (e : Error)
  | finished (r : Report)
  | dropped

/-- The stage after a look at the loads. -/
def Stage.ofStatus : Status → Stage
  | .waiting p => .joining p
  | .finished r => .finished r

/-- An import of a session. -/
structure Task (κ : Type) where
  config : Config
  location : String
  owner : Option (Owner κ)
  /-- Its registry; as long as the import runs nobody else has it. -/
  registry : Registry
  stage : Stage := .fetching none
  /-- All that it gave notice of. -/
  notices : List (Notice κ) := []

namespace Task

/-- The import with what fetching came to. -/
def receive (t : Task κ) (text : Except FetchError String) : Task κ :=
  match t.stage with
  | .fetching none => { t with stage := .fetching (some text) }
  | _ => t

/-- Looks at the loads of an import. -/
def look (t : Task κ) (env : Environment) (p : Progress) : Environment × Task κ :=
  let polled := Import.poll t.owner env p
  (polled.environment,
    { t with stage := .ofStatus polled.status, notices := t.notices ++ polled.notices })

/-- The import once it has begun. -/
def join (t : Task κ) (begun : Begun) : Task κ :=
  { t with
    registry := begun.registry
    stage := .joining begun.progress
    notices := t.notices ++ begun.warnings.map .warning }

/-- Polls an import. -/
def poll (t : Task κ) (env : Environment) : Environment × Task κ :=
  match t.stage with
  | .fetching (some text) =>
    match beginWith t.config t.location text t.registry env with
    | .error e => (env, { t with stage := .failed e })
    | .ok begun => (t.join begun).look begun.environment begun.progress
  | .joining p => t.look env p
  | _ => (env, t)

/-- Drops an import; one that has come to its end stays as it is. -/
def drop (t : Task κ) (env : Environment) : Environment × Task κ :=
  match t.stage with
  | .fetching _ => (env, { t with stage := .dropped })
  | .joining p => (abandon env p, { t with stage := .dropped })
  | _ => (env, t)

/-- Whether an import waits for a load. -/
def Awaits (t : Task κ) (load : Nat) : Prop :=
  ∃ p, t.stage = .joining p ∧ load ∈ p.loads.map ScriptLoad.load

/-- Whether an import has come to its end. -/
def ready (t : Task κ) : Bool :=
  match t.stage with
  | .failed _ => true
  | .finished _ => true
  | _ => false

end Task

/-! ### Sessions -/

/-- An environment and the imports that share it, in the order of their start. -/
structure Session (κ : Type) where
  environment : Environment
  tasks : List (Task κ) := []

/-- What can happen in a session; a number names an import by its place. -/
inductive Event (κ : Type) where
  | start (config : Config) (location : String) (owner : Option (Owner κ)) (registry : Registry)
  | fetched (task : Nat) (text : Except FetchError String)
  | poll (task : Nat)
  | drop (task : Nat)
  | complete (src : String) (result : LoadResult)
  | fail (src : String)
  | defer

/-- The import whose turn comes. -/
def Event.task? : Event κ → Option Nat
  | .fetched i _ => some i
  | .poll i => some i
  | .drop i => some i
  | _ => none

theorem Event.eq_of_task? {e : Event κ} {i : Nat} (h : e.task? = some i) :
    (∃ text, e = .fetched i text) ∨ e = .poll i ∨ e = .drop i := by
  cases e with
  | fetched j text => exact .inl ⟨text, by cases h; rfl⟩
  | poll j => exact .inr (.inl (by cases h; rfl))
  | drop j => exact .inr (.inr (by cases h; rfl))
  | start config location owner registry => cases h
  | complete src result => cases h
  | fail src => cases h
  | defer => cases h

namespace Session

/-- A session before the first import. -/
def opened (env : Environment) : Session κ := ⟨env, []⟩

/-- Does something with an import and the environment; nothing if there is no such import. -/
def update (s : Session κ) (i : Nat) (f : Task κ → Environment → Environment × Task κ) :
    Session κ :=
  match s.tasks[i]? with
  | none => s
  | some t => ⟨(f t s.environment).1, s.tasks.set i (f t s.environment).2⟩

/-- What an event does. -/
def step (s : Session κ) : Event κ → Session κ
  | .start config location owner registry =>
    { s with tasks := s.tasks ++ [⟨config, location, owner, registry, .fetching none, []⟩] }
  | .fetched i text => s.update i fun t env => (env, t.receive text)
  | .poll i => s.update i Task.poll
  | .drop i => s.update i Task.drop
  | .complete src result => { s with environment := (s.environment.complete src result).1 }
  | .fail src => { s with environment := s.environment.failScript src }
  | .defer => { s with environment := s.environment.defer }

/-- What a schedule does. -/
def run (s : Session κ) (es : List (Event κ)) : Session κ := es.foldl step s

theorem run_append (s : Session κ) (es fs : List (Event κ)) :
    s.run (es ++ fs) = (s.run es).run fs := List.foldl_append

/-- What every step keeps holds after every run. -/
theorem run_keeps {P : Session κ → Prop} (hstep : ∀ s e, P s → P (s.step e)) {s : Session κ}
    (hs : P s) (es : List (Event κ)) : P (s.run es) := by
  induction es generalizing s with
  | nil => exact hs
  | cons e es ih => exact ih (hstep s e hs)

theorem update_of_getElem? {s : Session κ} {i : Nat} {t : Task κ} (ht : s.tasks[i]? = some t)
    (f : Task κ → Environment → Environment × Task κ) :
    s.update i f = ⟨(f t s.environment).1, s.tasks.set i (f t s.environment).2⟩ := by
  rw [update, ht]

theorem getElem?_update {s : Session κ} {i : Nat} {t : Task κ} (ht : s.tasks[i]? = some t)
    (f : Task κ → Environment → Environment × Task κ) :
    (s.update i f).tasks[i]? = some (f t s.environment).2 := by
  rw [update_of_getElem? ht]
  exact List.getElem?_set_self (List.getElem?_eq_some_iff.mp ht).1

theorem environment_update {s : Session κ} {i : Nat} {t : Task κ} (ht : s.tasks[i]? = some t)
    (f : Task κ → Environment → Environment × Task κ) :
    (s.update i f).environment = (f t s.environment).1 := by
  rw [update_of_getElem? ht]

theorem update_of_none {s : Session κ} {i : Nat} (hi : s.tasks[i]? = none)
    (f : Task κ → Environment → Environment × Task κ) : s.update i f = s := by
  rw [update, hi]

end Session

/-! ### What an import does -/

/-- What an import can do to the page when its turn comes: it stops waiting for none but its own
loads, and it comes to wait for none but new ones. -/
structure Task.Moves (t : Task κ) (env : Environment) (moved : Environment × Task κ) : Prop where
  changes : Changes (fun n => t.Awaits n ∨ env.loads.length ≤ n) env moved.1
  awaits : ∀ n, moved.2.Awaits n → t.Awaits n ∨ env.loads.length ≤ n
  known : (∀ n, t.Awaits n → n < env.loads.length) →
    ∀ n, moved.2.Awaits n → n < moved.1.loads.length

namespace Task

theorem awaits_of_joining {t : Task κ} {p : Progress} (ht : t.stage = .joining p) {n : Nat} :
    t.Awaits n ↔ n ∈ p.loads.map ScriptLoad.load := by
  constructor
  · rintro ⟨q, hq, hn⟩
    rw [ht] at hq
    cases hq
    exact hn
  · exact fun hn => ⟨p, ht, hn⟩

/-- An import that leaves the page alone and waits for no more than before. -/
theorem Moves.of_still {t t' : Task κ} {env : Environment} (h : ∀ n, t'.Awaits n → t.Awaits n) :
    t.Moves env (env, t') where
  changes := .refl
  awaits n hn := .inl (h n hn)
  known hknown n hn := hknown n (h n hn)

theorem not_awaits {t : Task κ} (ht : ∀ p, t.stage ≠ .joining p) (n : Nat) : ¬t.Awaits n :=
  fun ⟨p, hp, _⟩ => ht p hp

theorem moves_receive (t : Task κ) (text : Except FetchError String) (env : Environment) :
    t.Moves env (env, t.receive text) := by
  rw [receive]
  split
  · exact .of_still fun n hn => absurd hn (not_awaits (by simp) n)
  · exact .of_still fun n hn => hn

/-- A look at the loads stops waiting for none but these, and goes on waiting for none but these. -/
theorem moves_look {t : Task κ} {p : Progress} (ht : t.stage = .joining p) (env : Environment) :
    t.Moves env (t.look env p) := by
  obtain ⟨ns, hns, henv, hloads⟩ := exists_forgetAll_pollLoads t.owner env p.loads
  have hchanges : Changes (fun n => t.Awaits n ∨ env.loads.length ≤ n) env (t.look env p).1 := by
    have hsame : (t.look env p).1 = env.forgetAll ns := by
      rw [look, environment_poll, henv]
    rw [hsame]
    exact changes_forgetAll env fun n hn => .inl ((awaits_of_joining ht).mpr (hns n hn))
  have hawaits : ∀ n, (t.look env p).2.Awaits n → t.Awaits n := by
    rintro n ⟨q, hq, hn⟩
    have hstatus : (Import.poll t.owner env p).status = .waiting q := by
      rw [look] at hq
      cases hstatus : (Import.poll t.owner env p).status with
      | waiting q' => simpa [Stage.ofStatus, hstatus] using hq
      | finished r => simp [Stage.ofStatus, hstatus] at hq
    rw [loads_of_poll_eq_waiting hstatus, List.map_map] at hn
    exact (awaits_of_joining ht).mpr (hloads ▸ hn)
  exact ⟨hchanges, fun n hn => .inl (hawaits n hn),
    fun hknown n hn => Nat.lt_of_lt_of_le (hknown n (hawaits n hn)) hchanges.length_le⟩

/-- What the beginning of an import leaves, with its document. -/
def begun (t : Task κ) (document : Document) (warnings : List Warning) (env : Environment) :
    Begun :=
  let installed := install t.location document t.registry env
  ⟨installed.1, installed.2.1, installed.2.2, warnings ++ document.definitionWarnings t.location⟩

theorem beginWith_of_parse {t : Task κ} {text : String} {document : Document}
    {warnings : List Warning}
    (h : Document.parse t.config.reserved text = .ok (document, warnings)) (env : Environment) :
    beginWith t.config t.location (.ok text) t.registry env =
      .ok (t.begun document warnings env) := by
  simp only [beginWith, h, begun]

/-- An import whose beginning succeeds has a document, which it installs. -/
theorem eq_begun_of_beginWith {t : Task κ} {text : Except FetchError String} {env : Environment}
    {begun : Begun} (h : beginWith t.config t.location text t.registry env = .ok begun) :
    ∃ document warnings, begun = t.begun document warnings env := by
  cases text with
  | error cause => simp [beginWith] at h
  | ok text =>
    cases hparse : Document.parse t.config.reserved text with
    | error cause => simp [beginWith, hparse] at h
    | ok parsed =>
      rw [beginWith_of_parse hparse env] at h
      cases h
      exact ⟨parsed.1, parsed.2, rfl⟩

/-- The poll with which an import begins. -/
theorem poll_of_text {t : Task κ} {text : String} {document : Document} {warnings : List Warning}
    (htext : t.stage = .fetching (some (.ok text)))
    (hparse : Document.parse t.config.reserved text = .ok (document, warnings))
    (env : Environment) :
    t.poll env = (t.join (t.begun document warnings env)).look
      (t.begun document warnings env).environment (t.begun document warnings env).progress := by
  rw [poll, htext]
  simp only [beginWith_of_parse hparse env]

/-- The loads of an import that has begun, as it inserted them. -/
theorem inserted_begun (t : Task κ) (document : Document) (warnings : List Warning)
    (env : Environment) :
    Inserted t.location document.scripts env (t.begun document warnings env).environment
      (t.begun document warnings env).progress.loads :=
  inserted_install t.location document t.registry env

theorem changes_begun (t : Task κ) (document : Document) (warnings : List Warning)
    (env : Environment) {mine : Nat → Prop} :
    Changes mine env (t.begun document warnings env).environment :=
  changes_install t.location document t.registry env

/-- The first look of an import that begins. -/
theorem moves_begin (t : Task κ) (document : Document) (warnings : List Warning)
    (env : Environment) :
    t.Moves env ((t.join (t.begun document warnings env)).look
      (t.begun document warnings env).environment (t.begun document warnings env).progress) := by
  have hinserted := t.inserted_begun document warnings env
  have hbegin : Changes (fun n => t.Awaits n ∨ env.loads.length ≤ n) env
    (t.begun document warnings env).environment := t.changes_begun document warnings env
  generalize t.begun document warnings env = begun at hinserted hbegin
  have hnew : ∀ n, (t.join begun).Awaits n →
      env.loads.length ≤ n ∧ n < begun.environment.loads.length := by
    intro n hn
    obtain ⟨l, hl, rfl⟩ := List.mem_map.mp ((awaits_of_joining rfl).mp hn)
    exact ⟨hinserted.length_le hl, hinserted.lt_length hl⟩
  -- the look comes after the insertions, and it is about the loads that began with these
  have hlook := (t.join begun).moves_look rfl begun.environment
  refine ⟨hbegin.trans (hlook.changes.mono ?_), ?_, fun _ => hlook.known fun n hn => (hnew n hn).2⟩
  · rintro n (hn | hn)
    · exact .inr (hnew n hn).1
    · exact .inr (Nat.le_trans hbegin.length_le hn)
  · intro n hn
    rcases hlook.awaits n hn with hn | hn
    · exact .inr (hnew n hn).1
    · exact .inr (Nat.le_trans hbegin.length_le hn)

theorem moves_poll (t : Task κ) (env : Environment) : t.Moves env (t.poll env) := by
  rw [poll]
  split
  · split
    · exact .of_still fun n hn => absurd hn (not_awaits (by simp) n)
    · rename_i hbegun
      obtain ⟨document, warnings, rfl⟩ := eq_begun_of_beginWith hbegun
      exact t.moves_begin document warnings env
  · rename_i p hstage
    exact moves_look hstage env
  · exact .of_still fun n hn => hn

theorem abandon_eq (env : Environment) (p : Progress) :
    abandon env p = env.forgetAll (p.loads.map ScriptLoad.load) := by
  rw [abandon, Environment.forgetAll, List.foldl_map]

theorem moves_drop (t : Task κ) (env : Environment) : t.Moves env (t.drop env) := by
  have hdropped : ∀ n, ¬({ t with stage := .dropped } : Task κ).Awaits n := not_awaits (by simp)
  rw [drop]
  split
  · exact .of_still fun n hn => absurd hn (hdropped n)
  · rename_i p hstage
    refine ⟨?_, fun n hn => absurd hn (hdropped n), fun _ n hn => absurd hn (hdropped n)⟩
    rw [abandon_eq]
    exact changes_forgetAll env fun n hn => .inl ((awaits_of_joining hstage).mpr hn)
  · exact .of_still fun n hn => hn

end Task

/-! ### What an event does -/

namespace Session

/-- What an event can do, by the import whose turn comes: it lets this import move, or it leaves all
imports as they are, but for new ones, and stops waiting for no load. -/
inductive Steps (s : Session κ) (turn : Option Nat) : Session κ → Prop where
  | moves {i : Nat} {t : Task κ} {moved : Environment × Task κ} (hi : turn = some i)
      (ht : s.tasks[i]? = some t) (hmoves : t.Moves s.environment moved) :
      Steps s turn ⟨moved.1, s.tasks.set i moved.2⟩
  | rests {env : Environment} {started : List (Task κ)}
      (hchanges : ∀ mine, Changes mine s.environment env)
      (hstarted : ∀ t ∈ started, ∀ n, ¬t.Awaits n) : Steps s turn ⟨env, s.tasks ++ started⟩

theorem Steps.refl (s : Session κ) (turn : Option Nat) : s.Steps turn s := by
  have hrests : s.Steps turn ⟨s.environment, s.tasks ++ []⟩ := .rests (fun _ => .refl) (by simp)
  rwa [List.append_nil] at hrests

theorem steps_update (s : Session κ) (i : Nat)
    {f : Task κ → Environment → Environment × Task κ}
    (hf : ∀ t : Task κ, t.Moves s.environment (f t s.environment)) :
    s.Steps (some i) (s.update i f) := by
  cases ht : s.tasks[i]? with
  | none =>
    rw [update_of_none ht]
    exact .refl s _
  | some t =>
    rw [update_of_getElem? ht]
    exact .moves rfl ht (hf t)

theorem steps_environment (s : Session κ) (turn : Option Nat) {env : Environment}
    (h : ∀ mine, Changes mine s.environment env) : s.Steps turn { s with environment := env } := by
  have hrests : s.Steps turn ⟨env, s.tasks ++ []⟩ := .rests h (by simp)
  rwa [List.append_nil] at hrests

theorem steps_step (s : Session κ) (e : Event κ) : s.Steps e.task? (s.step e) := by
  cases e with
  | start config location owner registry =>
    refine .rests (fun _ => .refl) ?_
    intro t ht
    rw [List.mem_singleton.mp ht]
    exact Task.not_awaits (by simp)
  | fetched i text =>
    exact s.steps_update i (f := fun t env => (env, t.receive text))
      fun t => t.moves_receive text s.environment
  | poll i => exact s.steps_update i fun t => t.moves_poll s.environment
  | drop i => exact s.steps_update i fun t => t.moves_drop s.environment
  | complete src result =>
    exact s.steps_environment _ fun _ => .single (.complete src result)
  | fail src => exact s.steps_environment _ fun _ => .single (.fail src)
  | defer => exact s.steps_environment _ fun _ => .single .defer

variable {s s' : Session κ} {turn : Option Nat}

/-- An event stops waiting for none but loads of the import whose turn comes, new ones included. -/
theorem Steps.changes (h : s.Steps turn s') :
    Changes (fun n =>
      (∃ (i : Nat) (t : Task κ), turn = some i ∧ s.tasks[i]? = some t ∧ t.Awaits n) ∨
        s.environment.loads.length ≤ n) s.environment s'.environment := by
  cases h with
  | moves hi ht hmoves =>
    exact hmoves.changes.mono fun n hn => hn.imp_left fun hn => ⟨_, _, hi, ht, hn⟩
  | rests hchanges hstarted => exact hchanges _

/-- An import after an event moved there, or it is as it was, or it is a new one. -/
theorem Steps.task_cases (h : s.Steps turn s') {j : Nat} {t' : Task κ}
    (ht' : s'.tasks[j]? = some t') :
    (∃ t, s.tasks[j]? = some t ∧ turn = some j ∧ t.Moves s.environment (s'.environment, t')) ∨
      s.tasks[j]? = some t' ∨ ∀ n, ¬t'.Awaits n := by
  cases h with
  | @moves i t moved hi ht hmoves =>
    rw [List.getElem?_set] at ht'
    split at ht'
    · rename_i hij
      subst hij
      split at ht'
      · cases ht'
        exact .inl ⟨t, ht, hi, hmoves⟩
      · cases ht'
    · exact .inr (.inl ht')
  | rests hchanges hstarted =>
    rw [List.getElem?_append] at ht'
    split at ht'
    · exact .inr (.inl ht')
    · exact .inr (.inr (hstarted t' (List.mem_of_getElem? ht')))

/-- Imports whose turn does not come stay as they are. -/
theorem Steps.getElem?_tasks (h : s.Steps turn s') {j : Nat} {t : Task κ}
    (ht : s.tasks[j]? = some t) (hj : turn ≠ some j) : s'.tasks[j]? = some t := by
  cases h with
  | @moves i t moved hi _ hmoves =>
    have hij : i ≠ j := fun hij => hj (hij ▸ hi)
    rw [List.getElem?_set_ne hij, ht]
  | rests hchanges hstarted =>
    rw [List.getElem?_append_left (List.getElem?_eq_some_iff.mp ht).1, ht]

/-- After an event an import waits for no loads but those it waited for and new ones. -/
theorem Steps.awaits (h : s.Steps turn s') {j : Nat} {t' : Task κ} (ht' : s'.tasks[j]? = some t')
    {n : Nat} (hn : t'.Awaits n) :
    (∃ t, s.tasks[j]? = some t ∧ t.Awaits n) ∨ s.environment.loads.length ≤ n := by
  rcases h.task_cases ht' with ⟨t, ht, _, hmoves⟩ | hsame | hnew
  · exact (hmoves.awaits n hn).imp_left fun hn => ⟨t, ht, hn⟩
  · exact .inl ⟨t', hsame, hn⟩
  · exact absurd hn (hnew n)

/-- Whether imports wait for no loads but such as have begun. -/
def Known (s : Session κ) : Prop :=
  ∀ (j : Nat) (t : Task κ), s.tasks[j]? = some t → ∀ n, t.Awaits n → n < s.environment.loads.length

theorem Known.steps (hs : s.Known) (h : s.Steps turn s') : s'.Known := by
  intro j t' ht' n hn
  rcases h.task_cases ht' with ⟨t, ht, _, hmoves⟩ | hsame | hnew
  · exact hmoves.known (hs j t ht) n hn
  · exact Nat.lt_of_lt_of_le (hs j t' hsame n hn) h.changes.length_le
  · exact absurd hn (hnew n)

/-- In a session that was opened before the first import, no load is waited for that has not
begun. -/
theorem known_run (env : Environment) (es : List (Event κ)) : ((opened env).run es).Known :=
  run_keeps (fun s e hs => hs.steps (s.steps_step e)) (by simp [Known, opened]) es

/-- A schedule changes the environment step by step. -/
theorem changes_run (s : Session κ) (es : List (Event κ)) :
    Changes (fun _ => True) s.environment (s.run es).environment := by
  refine run_keeps (P := fun s' => Changes (fun _ => True) s.environment s'.environment) ?_ .refl es
  intro s' e hs'
  exact hs'.trans ((s'.steps_step e).changes.mono fun _ _ => trivial)

/-- The poll with which an import begins lists all that its document refers to. -/
theorem lists_step {s : Session κ} {i : Nat} {t : Task κ} {text : String} {document : Document}
    {warnings : List Warning} (ht : s.tasks[i]? = some t)
    (htext : t.stage = .fetching (some (.ok text)))
    (hparse : Document.parse t.config.reserved text = .ok (document, warnings)) :
    Lists (s.step (.poll i)).environment t.location document := by
  rw [step, update_of_getElem? ht, Task.poll_of_text htext hparse]
  have hlists : Lists (t.begun document warnings s.environment).environment t.location document :=
    lists_install t.location document t.registry s.environment
  exact hlists.grows (Task.moves_look rfl _).changes.grows

/-- Whatever the schedule of imports is, no stylesheet and no script is ever listed twice, none that
is listed ever moves, and all that a document refers to is listed once its import has begun. -/
theorem listed_once {env : Environment} (henv : env.Unrepeated) (before : List (Event κ)) :
    let s := (opened env).run before
    s.environment.Unrepeated ∧
      (∀ after, s.environment.Grows (s.run after).environment) ∧
      ∀ i t text document warnings after, s.tasks[i]? = some t →
        t.stage = .fetching (some (.ok text)) →
        Document.parse t.config.reserved text = .ok (document, warnings) →
        (∀ r ∈ document.stylesheets, (s.run (.poll i :: after)).environment.stylesheets.count
          (Location.resolve t.location r.src) = 1) ∧
        ∀ r ∈ document.scripts, (s.run (.poll i :: after)).environment.scripts.count
          (Location.resolve t.location r.src) = 1 := by
  intro s
  have hreached (after : List (Event κ)) : (s.run after).environment.Unrepeated := by
    rw [← run_append]
    exact (changes_run (opened env) (before ++ after)).unrepeated henv
  refine ⟨hreached [], fun after => (changes_run s after).grows, ?_⟩
  intro i t text document warnings after ht htext hparse
  have hlists : Lists (s.run (.poll i :: after)).environment t.location document :=
    (lists_step ht htext hparse).grows (changes_run (s.step (.poll i)) after).grows
  have hnodup := hreached (.poll i :: after)
  exact ⟨fun r hr => List.count_eq_one_of_mem hnodup.stylesheets (hlists.stylesheets r hr),
    fun r hr => List.count_eq_one_of_mem hnodup.scripts (hlists.scripts r hr)⟩

/-- A script under two spellings, one of which leads through another directory.  The import is
dropped while the script loads, and another one of the same text follows. -/
theorem listed_once_of_two_spellings :
    let env : Environment := ⟨[], [], [], true, [], []⟩
    let text := "<r><dht:script src='x'/><dht:script src='b/../x'/></r>"
    let s : Session Unit := (opened env).run [.start {} "a/t" none {}, .fetched 0 (.ok text)]
    env.Unrepeated ∧ s.environment.Unrepeated ∧
      (s.run [.poll 0, .drop 0, .start {} "a/u" none {}, .fetched 1 (.ok text),
        .poll 1]).environment.scripts.count "a/x" = 1 := by
  intro env text s
  have henv : env.Unrepeated := ⟨.nil, .nil⟩
  obtain ⟨hunrepeated, _, hlisted⟩ :=
    listed_once henv [.start {} "a/t" none {}, (.fetched 0 (.ok text) : Event Unit)]
  have hparse : Document.parse ⟨"dht"⟩ text =
      .ok (⟨[], [], [⟨"x", none⟩, ⟨"b/../x", none⟩]⟩, []) :=
    Document.parse_of_references (by decide +kernel)
  have hresolve : Location.resolve "a/t" "x" = "a/x" := by decide +kernel
  obtain ⟨_, hscripts⟩ := hlisted 0 ⟨{}, "a/t", none, {}, .fetching (some (.ok text)), []⟩ text _ _
    [.drop 0, .start {} "a/u" none {}, .fetched 1 (.ok text), .poll 1] rfl rfl hparse
  refine ⟨henv, hunrepeated, ?_⟩
  rw [← hresolve]
  exact hscripts ⟨"x", none⟩ (by simp)

end Session

end Transclude.Import
