/-
What an import knows that waits for its scripts.

An import that has begun waits for the loads of the scripts it inserted, while anything else may
happen to the page.  It calls the function of a script at the first of its polls that finds the
script loaded, and it comes to its end with the first one that finds no load waiting.

* `Heard` — the loads whose success an import has heard of, each of them once, in the order in which
  it heard of them;
* `Joined` — what an import that has begun knows and has given notice of, at any time;
* `Joined.changes`, `Joined.poll`, `Joined.drop` — it stays so whatever happens to the page, with
  every poll, and when the import is dropped.

Design notes: what the import knows is fixed by the page as its last poll saw it, so that `Joined`
is about two environments, that one and the one of now.
-/
import Transclude.Proofs.Session

namespace Transclude.Import

open Environment (Changes changes_forgetAll)
open Production (Notice)

variable {κ : Type}

/-! ### The functions that were called -/

/-- The loads, in the order in which an import heard that they have loaded; `last` is the page as
the import saw it last. -/
structure Heard (inserted : List ScriptLoad) (last : Environment) (heard : List ScriptLoad) :
    Prop where
  nodup : heard.Nodup
  mem : ∀ l, l ∈ heard ↔ l ∈ inserted ∧ last.resultOf? l.load = some .loaded

/-- The loads of which a poll hears that they have loaded. -/
def fresh (last env : Environment) (ls : List ScriptLoad) : List ScriptLoad :=
  (arrange ScriptLoad.load env ls).filter fun l =>
    (last.resultOf? l.load).isNone && decide (env.resultOf? l.load = some .loaded)

theorem settled_seen (owner : Option (Owner κ)) (env : Environment) (l : ScriptLoad)
    (result : LoadResult) : settled owner (seen env l) result = settled owner l result := by
  cases result <;> rfl

theorem news_seen (owner : Option (Owner κ)) (last env : Environment) (l : ScriptLoad) :
    news owner env (seen last l) =
      if (last.resultOf? l.load).isNone && decide (env.resultOf? l.load = some .loaded) then
        settled owner l .loaded
      else [] := by
  have hload : (seen last l).load = l.load := rfl
  have hresult : (seen last l).result = last.resultOf? l.load := rfl
  rw [news, takes, hload, hresult]
  cases last.resultOf? l.load with
  | some r => simp
  | none =>
    cases env.resultOf? l.load with
    | none => simp
    | some r =>
      cases r with
      | loaded => simp [settled_seen]
      | failed e => simp [settled]

/-- A poll calls the functions of the scripts of which it hears that they have loaded. -/
theorem flatMap_news (owner : Option (Owner κ)) (last env : Environment) (ls : List ScriptLoad) :
    (arrange ScriptLoad.load env (ls.map (seen last))).flatMap (news owner env) =
      (fresh last env ls).flatMap fun l => settled owner l .loaded := by
  have harrange : arrange ScriptLoad.load env (ls.map (seen last)) =
      (arrange ScriptLoad.load env ls).map (seen last) := arrange_map _ _ _ _
  rw [harrange, List.flatMap_map, fresh]
  simp only [news_seen]
  induction arrange ScriptLoad.load env ls with
  | nil => rfl
  | cons l ls ih =>
    rw [List.flatMap_cons, ih, List.filter_cons]
    split <;> simp

/-- Once a poll has seen the page, the loads that have loaded by then were heard of. -/
theorem Heard.append {inserted heard : List ScriptLoad} {last env : Environment}
    (h : Heard inserted last heard)
    (hknown : ∀ n r, last.resultOf? n = some r → env.resultOf? n = some r)
    (henv : env.completed.Nodup) (hinserted : (inserted.map ScriptLoad.load).Nodup) :
    Heard inserted env (heard ++ fresh last env inserted) := by
  have hperm : (arrange ScriptLoad.load env inserted).Perm inserted :=
    perm_arrange env henv hinserted
  have hmem : ∀ l, l ∈ fresh last env inserted ↔
      l ∈ inserted ∧ last.resultOf? l.load = none ∧ env.resultOf? l.load = some .loaded := by
    intro l
    rw [fresh, List.mem_filter, hperm.mem_iff, Bool.and_eq_true, Option.isNone_iff_eq_none,
      decide_eq_true_iff]
  constructor
  · -- what is heard of now had no result when the import saw the page last
    have hfresh : (fresh last env inserted).Nodup :=
      ((hperm.nodup_iff).mpr (hinserted.of_map _)).filter _
    refine List.nodup_append.mpr ⟨h.nodup, hfresh, ?_⟩
    rintro l hl m hm rfl
    have hnone := ((hmem l).mp hm).2.1
    rw [((h.mem l).mp hl).2] at hnone
    cases hnone
  · intro l
    rw [List.mem_append, h.mem, hmem]
    constructor
    · rintro (⟨hl, hlast⟩ | ⟨hl, _, henv⟩)
      · exact ⟨hl, hknown _ _ hlast⟩
      · exact ⟨hl, henv⟩
    · rintro ⟨hl, hloaded⟩
      cases hlast : last.resultOf? l.load with
      | none => exact .inr ⟨hl, rfl, hloaded⟩
      | some r =>
        have hr := hknown _ _ hlast
        rw [hloaded] at hr
        cases hr
        exact .inl ⟨hl, rfl⟩

/-! ### Imports that have begun -/

/-- What an import knows of its loads: as long as it waits, what it saw of each of them last, and at
the end that none waits. -/
inductive Knows (inserted : List ScriptLoad) (last : Environment) : Stage → Prop where
  | joining {p : Progress} (h : p.loads = inserted.map (seen last)) :
      Knows inserted last (.joining p)
  | finished {r : Report} (h : ∀ l ∈ inserted, (last.resultOf? l.load).isSome) :
      Knows inserted last (.finished r)
  | dropped : Knows inserted last .dropped

/-- The warnings with which an import ends. -/
def closing (inserted : List ScriptLoad) (last : Environment) : Stage → List Warning
  | .finished _ => failureWarnings (resultsIn last inserted)
  | _ => []

/-- How an import stands that began as `t₀`: what it knows is what `last`, the page as it saw it
last, says of its loads, and it has given notice of this and of nothing else. -/
structure Joined (t₀ : Task κ) (begun : Begun) (last : Environment) (heard : List ScriptLoad)
    (env : Environment) (t : Task κ) : Prop where
  owner : t.owner = t₀.owner
  registry : t.registry = begun.registry
  stage : Knows begun.progress.loads last t.stage
  known : ∀ n r, last.resultOf? n = some r → env.resultOf? n = some r
  /-- The results that it has not heard of can still be taken. -/
  awaiting : ∀ l ∈ begun.progress.loads, (∃ p, t.stage = .joining p) →
    ∃ e, env.loads[l.load]? = some e ∧ (last.resultOf? l.load = none → e.released = false)
  hears : Heard begun.progress.loads last heard
  notices : t.notices = t₀.notices ++ begun.warnings.map .warning
    ++ heard.flatMap (fun l => settled t₀.owner l .loaded)
    ++ (closing begun.progress.loads last t.stage).map .warning

section

variable {t₀ t : Task κ} {begun : Begun} {last env env' : Environment} {heard : List ScriptLoad}

/-- Changes of the page that stop waiting for no load of the import leave it as it is. -/
theorem Joined.changes {mine : Nat → Prop} (h : Joined t₀ begun last heard env t)
    (hchanges : Changes mine env env') (hmine : ∀ l ∈ begun.progress.loads, ¬mine l.load) :
    Joined t₀ begun last heard env' t where
  owner := h.owner
  registry := h.registry
  stage := h.stage
  known n r hr := hchanges.resultOf? (h.known n r hr)
  awaiting l hl hjoining := by
    obtain ⟨e, he, hreleased⟩ := h.awaiting l hl hjoining
    obtain ⟨e', he', hlater⟩ := hchanges.load he
    refine ⟨e', he', fun hnone => ?_⟩
    rw [hlater.released (hmine l hl), hreleased hnone]
  hears := h.hears
  notices := h.notices

/-- The loads of an import that waits are held by it. -/
theorem Joined.held (h : Joined t₀ begun last heard env t) {p : Progress}
    (ht : t.stage = .joining p) (hp : p.loads = begun.progress.loads.map (seen last)) :
    ∀ l ∈ p.loads, Held env l := by
  intro m hm
  rw [hp] at hm
  obtain ⟨l, hl, rfl⟩ := List.mem_map.mp hm
  obtain ⟨e, he, hreleased⟩ := h.awaiting l hl ⟨p, ht⟩
  refine ⟨e, he, ?_, hreleased⟩
  intro r hr
  have hresult := h.known l.load r hr
  rwa [Environment.resultOf?, he, Option.bind_some] at hresult

theorem isSome_of_mem_taken {ls : List ScriptLoad} {n : Nat} (hn : n ∈ taken env ls) :
    (env.resultOf? n).isSome := by
  obtain ⟨l, hl, rfl⟩ := List.mem_map.mp hn
  have htakes := (List.mem_filter.mp hl).2
  rw [takes, Bool.and_eq_true] at htakes
  exact htakes.2

/-- The results that an import has not heard of after a poll can still be taken: the poll took none
but those it heard of. -/
theorem Joined.awaiting_taken (h : Joined t₀ begun last heard env t) {p : Progress}
    (ht : t.stage = .joining p) {l : ScriptLoad} (hl : l ∈ begun.progress.loads) :
    ∃ e, (env.forgetAll (taken env p.loads)).loads[l.load]? = some e ∧
      (env.resultOf? l.load = none → e.released = false) := by
  obtain ⟨e, he, hreleased⟩ := h.awaiting l hl ⟨p, ht⟩
  have hchanges : Changes (fun n => (env.resultOf? n).isSome) env
      (env.forgetAll (taken env p.loads)) :=
    changes_forgetAll env fun n hn => isSome_of_mem_taken hn
  obtain ⟨e', he', hlater⟩ := hchanges.load he
  refine ⟨e', he', fun hnone => ?_⟩
  rw [hlater.released (by simp [hnone])]
  cases hlast : last.resultOf? l.load with
  | none => exact hreleased hlast
  | some r =>
    rw [h.known _ _ hlast] at hnone
    cases hnone

/-- The notices of an import after a poll, except for those at its end. -/
theorem Joined.notices_append (h : Joined t₀ begun last heard env t) {p : Progress}
    (ht : t.stage = .joining p) (hp : p.loads = begun.progress.loads.map (seen last)) :
    t.notices ++ (arrange ScriptLoad.load env p.loads).flatMap (news t.owner env) =
      t₀.notices ++ begun.warnings.map .warning
        ++ (heard ++ fresh last env begun.progress.loads).flatMap
          fun l => settled t₀.owner l .loaded := by
  rw [h.notices, h.owner, hp, flatMap_news, ht]
  simp [closing]

/-- A poll hears of the loads that have loaded by then, and it ends the import if none waits. -/
theorem Joined.look (h : Joined t₀ begun last heard env t) {p : Progress}
    (ht : t.stage = .joining p) (henv : env.completed.Nodup)
    (hnumbers : (begun.progress.loads.map ScriptLoad.load).Nodup) :
    Joined t₀ begun env (heard ++ fresh last env begun.progress.loads) (t.look env p).1
        (t.look env p).2 ∧
      ((t.look env p).2.ready = true ↔
        ∀ l ∈ begun.progress.loads, ((t.look env p).1.resultOf? l.load).isSome) := by
  obtain ⟨hp⟩ : Knows begun.progress.loads last (.joining p) := ht ▸ h.stage
  have hheld := h.held ht hp
  have hnodup : (p.loads.map ScriptLoad.load).Nodup := by
    rw [hp, List.map_map]
    exact hnumbers
  have hknown : ∀ n r, env.resultOf? n = some r →
      (env.forgetAll (taken env p.loads)).resultOf? n = some r := by
    intro n r hr
    rw [Environment.resultOf?_forgetAll, hr]
  have hhears := h.hears.append h.known henv hnumbers
  have hnotices := h.notices_append ht hp
  have hall : (∀ l ∈ begun.progress.loads, (env.resultOf? l.load).isSome) ↔
      ∀ l ∈ p.loads, (env.resultOf? l.load).isSome := by
    rw [hp, List.forall_mem_map]
    rfl
  -- the two ways in which a poll can end
  by_cases hsettled : ∀ l ∈ p.loads, (env.resultOf? l.load).isSome
  · have hpoll := poll_of_settled hheld hnodup t.owner hsettled
    have hresults : resultsIn env p.loads = resultsIn env begun.progress.loads := by
      rw [hp, resultsIn, List.filterMap_map]
      rfl
    simp only [Task.look, hpoll, Stage.ofStatus, Environment.resultOf?_forgetAll, hall]
    refine ⟨⟨h.owner, h.registry, .finished (hall.mpr hsettled), hknown,
      fun l hl _ => h.awaiting_taken ht hl, hhears, ?_⟩, iff_of_true rfl hsettled⟩
    rw [← List.append_assoc, hnotices, closing, hresults]
  · have hpending : ∃ l ∈ p.loads, env.resultOf? l.load = none := by
      simpa using hsettled
    have hpoll := poll_of_pending hheld hnodup t.owner hpending
    simp only [Task.look, hpoll, Stage.ofStatus, Environment.resultOf?_forgetAll, hall]
    refine ⟨⟨h.owner, h.registry, .joining ?_, hknown, fun l hl _ => h.awaiting_taken ht hl, hhears,
      ?_⟩, iff_of_false (by simp [Task.ready]) hsettled⟩
    · rw [hp, List.map_map]
      rfl
    · rw [hnotices]
      simp [closing]

theorem seen_of_unknown {l : ScriptLoad} (hl : l.result = none) : seen {} l = l := by
  cases l
  cases hl
  rfl

/-- The import at its beginning, when it has not heard of anything. -/
theorem joined_join (t : Task κ) (document : Document) (warnings : List Warning)
    (env : Environment) :
    Joined t (t.begun document warnings env) {} [] (t.begun document warnings env).environment
      (t.join (t.begun document warnings env)) := by
  have hinserted := t.inserted_begun document warnings env
  generalize t.begun document warnings env = begun at hinserted
  refine ⟨rfl, rfl, .joining ?_, by simp [Environment.resultOf?], ?_, ⟨by simp, ?_⟩, ?_⟩
  · -- an empty page has no results, so that nothing is known of the loads
    have hsame : ∀ l ∈ begun.progress.loads, seen {} l = l :=
      fun l hl => seen_of_unknown (hinserted.unknown l hl)
    have hjoined : begun.progress.loads.map (seen {}) = begun.progress.loads := by
      rw [List.map_congr_left hsame, List.map_id']
    exact hjoined.symm
  · intro l hl _
    exact ⟨_, hinserted.getElem?_loads hl, fun _ => rfl⟩
  · simp [Environment.resultOf?]
  · simp [Task.join, closing]

/-- How far an import can have come that has begun. -/
theorem Joined.stage_cases (h : Joined t₀ begun last heard env t) :
    (∃ p, t.stage = .joining p) ∨
      (∃ r, t.stage = .finished r ∧ ∀ l ∈ begun.progress.loads, (last.resultOf? l.load).isSome) ∨
        t.stage = .dropped := by
  have hstage := h.stage
  generalize t.stage = stage at hstage
  cases hstage with
  | joining hp => exact .inl ⟨_, rfl⟩
  | finished hr => exact .inr (.inl ⟨_, rfl, hr⟩)
  | dropped => exact .inr (.inr rfl)

/-- A poll keeps what holds of an import that has begun; and unless it was dropped, it has come to
its end after the poll if and only if none of its loads waits. -/
theorem Joined.poll (h : Joined t₀ begun last heard env t) (henv : env.completed.Nodup)
    (hnumbers : (begun.progress.loads.map ScriptLoad.load).Nodup) :
    (∃ last' heard', Joined t₀ begun last' heard' (t.poll env).1 (t.poll env).2) ∧
      (t.stage ≠ .dropped → ((t.poll env).2.ready = true ↔
        ∀ l ∈ begun.progress.loads, ((t.poll env).1.resultOf? l.load).isSome)) := by
  rcases h.stage_cases with ⟨p, ht⟩ | ⟨r, ht, hr⟩ | ht
  · have hpoll : t.poll env = t.look env p := by rw [Task.poll, ht]
    obtain ⟨hjoined, hready⟩ := h.look ht henv hnumbers
    rw [hpoll]
    exact ⟨⟨_, _, hjoined⟩, fun _ => hready⟩
  · -- an import at its end is left as it is, and what its loads came to stays
    have hpoll : t.poll env = (env, t) := by rw [Task.poll, ht]
    have hready : t.ready = true := by rw [Task.ready, ht]
    rw [hpoll]
    refine ⟨⟨_, _, h⟩, fun _ => iff_of_true hready fun l hl => ?_⟩
    obtain ⟨result, hresult⟩ := Option.isSome_iff_exists.mp (hr l hl)
    exact Option.isSome_iff_exists.mpr ⟨result, h.known _ _ hresult⟩
  · have hpoll : t.poll env = (env, t) := by rw [Task.poll, ht]
    rw [hpoll]
    exact ⟨⟨_, _, h⟩, fun hnot => absurd ht hnot⟩

/-- Dropping an import keeps all but that it waits. -/
theorem Joined.drop (h : Joined t₀ begun last heard env t) :
    Joined t₀ begun last heard (t.drop env).1 (t.drop env).2 := by
  rcases h.stage_cases with ⟨p, ht⟩ | ⟨r, ht, _⟩ | ht
  · have hdrop : t.drop env = (abandon env p, { t with stage := .dropped }) := by
      rw [Task.drop, ht]
    have hnotices := h.notices
    rw [ht] at hnotices
    rw [hdrop, Task.abandon_eq]
    -- nothing waits any more, so it does not matter that its loads are given up
    refine ⟨h.owner, h.registry, .dropped, ?_, by simp, h.hears, hnotices⟩
    intro n r hr
    rw [Environment.resultOf?_forgetAll]
    exact h.known n r hr
  · have hdrop : t.drop env = (env, t) := by rw [Task.drop, ht]
    rwa [hdrop]
  · have hdrop : t.drop env = (env, t) := by rw [Task.drop, ht]
    rwa [hdrop]

theorem Joined.receive (h : Joined t₀ begun last heard env t) (text : Except FetchError String) :
    t.receive text = t := by
  rcases h.stage_cases with ⟨p, ht⟩ | ⟨r, ht, _⟩ | ht <;> rw [Task.receive, ht]

/-- An import at its end knows what all of its loads came to. -/
theorem Joined.isSome_of_ready (h : Joined t₀ begun last heard env t) (hready : t.ready = true) :
    ∀ l ∈ begun.progress.loads, (last.resultOf? l.load).isSome := by
  rcases h.stage_cases with ⟨p, ht⟩ | ⟨r, ht, hr⟩ | ht
  · simp [Task.ready, ht] at hready
  · exact hr
  · simp [Task.ready, ht] at hready

end

end Transclude.Import
