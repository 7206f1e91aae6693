/-
How a page changes while imports run on it.

Imports link stylesheets and insert scripts that are not there yet, and stop waiting for loads that
they inserted; scripts are completed; and loads come to be deferred, or those of a script to fail.
Nothing else happens to the environment, and every law of it is proved for these six changes.

* `Environment.Change`, `Environment.Changes` — one change, and any number of them;
* `Changes.grows` — what is listed once stays listed at its place;
* `Changes.unrepeated` — lists without repetition stay so;
* `Changes.load` — a load stays at its number; what it came to never changes; and it is waited for
  until the one whose load it is stops waiting;
* `Changes.consistent` — completions are recorded once each.
-/
import Mathlib.Logic.Relation
import Transclude.Environment

namespace Transclude.Environment

/-! ### Changes -/

/-- One change of an environment.  Only of loads that are `mine` one stops waiting for. -/
inductive Change (mine : Nat → Prop) : Environment → Environment → Prop where
  | link {env : Environment} {href : String} (h : env.hasStylesheet href = false) :
      Change mine env (env.insertStylesheet href)
  | insert {env : Environment} {src : String} (h : env.hasScript src = false) :
      Change mine env (env.insertScript src).1
  | complete {env : Environment} (src : String) (result : LoadResult) :
      Change mine env (env.complete src result).1
  | fail {env : Environment} (src : String) : Change mine env (env.failScript src)
  | defer {env : Environment} : Change mine env env.defer
  | forget {env : Environment} {load : Nat} (h : mine load) : Change mine env (env.forget load)

/-- Any number of changes of an environment. -/
abbrev Changes (mine : Nat → Prop) : Environment → Environment → Prop :=
  Relation.ReflTransGen (Change mine)

variable {mine mine' : Nat → Prop} {env env' : Environment}

theorem Change.mono (hmine : ∀ n, mine n → mine' n) (h : Change mine env env') :
    Change mine' env env' := by
  cases h with
  | link h => exact .link h
  | insert h => exact .insert h
  | complete src result => exact .complete src result
  | fail src => exact .fail src
  | defer => exact .defer
  | forget h => exact .forget (hmine _ h)

theorem Changes.mono (hmine : ∀ n, mine n → mine' n) (h : Changes mine env env') :
    Changes mine' env env' :=
  Relation.ReflTransGen.mono (fun _ _ => Change.mono hmine) _ _ h

/-- What every change keeps stays through all of them. -/
theorem Changes.keeps {P : Environment → Prop} (hP : ∀ a b, Change mine a b → P a → P b)
    (h : Changes mine env env') (henv : P env) : P env' := by
  induction h with
  | refl => exact henv
  | tail _ hchange ih => exact hP _ _ hchange ih

/-- Gives up waiting for several loads. -/
def forgetAll (env : Environment) (loads : List Nat) : Environment := loads.foldl forget env

theorem changes_forgetAll (env : Environment) {loads : List Nat} (h : ∀ n ∈ loads, mine n) :
    Changes mine env (env.forgetAll loads) := by
  induction loads generalizing env with
  | nil => exact .refl
  | cons n ns ih =>
    refine Relation.ReflTransGen.head (.forget (h n (by simp))) ?_
    exact ih (env.forget n) fun m hm => h m (by simp [hm])

/-! ### Lists -/

/-- Whether all that one environment lists stands at the same places in another. -/
structure Grows (env env' : Environment) : Prop where
  stylesheets : env.stylesheets <+: env'.stylesheets
  scripts : env.scripts <+: env'.scripts

theorem Grows.refl (env : Environment) : env.Grows env :=
  ⟨List.prefix_refl _, List.prefix_refl _⟩

theorem Grows.trans {env'' : Environment} (h : env.Grows env') (h' : env'.Grows env'') :
    env.Grows env'' :=
  ⟨h.stylesheets.trans h'.stylesheets, h.scripts.trans h'.scripts⟩

theorem Change.grows (h : Change mine env env') : env.Grows env' := by
  cases h with
  | link => exact ⟨List.prefix_append _ _, List.prefix_refl _⟩
  | insert => exact ⟨List.prefix_refl _, List.prefix_append _ _⟩
  | complete => exact ⟨List.prefix_refl _, List.prefix_refl _⟩
  | fail => exact ⟨List.prefix_refl _, List.prefix_refl _⟩
  | defer => exact ⟨List.prefix_refl _, List.prefix_refl _⟩
  | forget => exact ⟨List.prefix_refl _, List.prefix_refl _⟩

/-- What is listed once stays listed at its place. -/
theorem Changes.grows (h : Changes mine env env') : env.Grows env' :=
  h.keeps (fun _ _ hchange hgrows => hgrows.trans hchange.grows) (.refl env)

/-- Whether no stylesheet and no script is listed twice. -/
structure Unrepeated (env : Environment) : Prop where
  stylesheets : env.stylesheets.Nodup
  scripts : env.scripts.Nodup

theorem nodup_append_of_not_contains {xs : List String} {x : String} (hxs : xs.Nodup)
    (hx : xs.contains x = false) : (xs ++ [x]).Nodup := by
  have hmem : x ∉ xs := by simpa using hx
  refine List.nodup_append.mpr ⟨hxs, by simp, ?_⟩
  intro a ha b hb hab
  rw [List.mem_singleton.mp hb] at hab
  exact hmem (hab ▸ ha)

theorem Change.unrepeated (h : Change mine env env') (henv : env.Unrepeated) : env'.Unrepeated := by
  cases h with
  | link h => exact ⟨nodup_append_of_not_contains henv.stylesheets h, henv.scripts⟩
  | insert h => exact ⟨henv.stylesheets, nodup_append_of_not_contains henv.scripts h⟩
  | complete => exact ⟨henv.stylesheets, henv.scripts⟩
  | fail => exact ⟨henv.stylesheets, henv.scripts⟩
  | defer => exact ⟨henv.stylesheets, henv.scripts⟩
  | forget => exact ⟨henv.stylesheets, henv.scripts⟩

/-- Lists without repetition stay so. -/
theorem Changes.unrepeated (h : Changes mine env env') (henv : env.Unrepeated) :
    env'.Unrepeated :=
  h.keeps (fun _ _ hchange => hchange.unrepeated) henv

/-! ### Loads -/

/-- What a load came to. -/
def resultOf? (env : Environment) (n : Nat) : Option LoadResult :=
  env.loads[n]?.bind Load.result

theorem getElem?_loads_insertScript {src : String} {n : Nat} (hn : n < env.loads.length) :
    (env.insertScript src).1.loads[n]? = env.loads[n]? :=
  List.getElem?_append_left hn

theorem getElem?_loads_complete (src : String) (result : LoadResult) (n : Nat) :
    (env.complete src result).1.loads[n]? =
      env.loads[n]?.map fun l => if awaits src l then l.settle result else l :=
  List.getElem?_map

theorem getElem?_loads_forget (load n : Nat) :
    (env.forget load).loads[n]? =
      if load = n then env.loads[n]?.map Load.release else env.loads[n]? := by
  rw [forget, List.getElem?_modify]
  split
  · rfl
  · exact Option.map_id'

@[simp] theorem resultOf?_forget (env : Environment) (load n : Nat) :
    (env.forget load).resultOf? n = env.resultOf? n := by
  rw [Environment.resultOf?, getElem?_loads_forget]
  split
  · cases h : env.loads[n]? with
    | none => simp [Environment.resultOf?, h]
    | some l => simp [Environment.resultOf?, h, Load.release]
  · rfl

theorem resultOf?_forgetAll (env : Environment) (ns : List Nat) (n : Nat) :
    (env.forgetAll ns).resultOf? n = env.resultOf? n := by
  induction ns generalizing env with
  | nil => rfl
  | cons m ns ih => exact (ih (env.forget m)).trans (resultOf?_forget env m n)

/-- Whether a load is the later state of another one; `mine` says whether one may have stopped
waiting for it in between. -/
structure LaterLoad (mine : Prop) (l l' : Load) : Prop where
  result : ∀ r, l.result = some r → l'.result = some r
  released : ¬mine → l'.released = l.released

theorem LaterLoad.refl (mine : Prop) (l : Load) : LaterLoad mine l l :=
  ⟨fun _ h => h, fun _ => rfl⟩

theorem LaterLoad.trans {mine : Prop} {l l' l'' : Load} (h : LaterLoad mine l l')
    (h' : LaterLoad mine l' l'') : LaterLoad mine l l'' where
  result r hr := h'.result r (h.result r hr)
  released hmine := (h'.released hmine).trans (h.released hmine)

theorem Change.load (h : Change mine env env') {n : Nat} {l : Load} (hl : env.loads[n]? = some l) :
    ∃ l', env'.loads[n]? = some l' ∧ LaterLoad (mine n) l l' := by
  cases h with
  | link => exact ⟨l, hl, .refl _ l⟩
  | insert =>
    have hn : n < env.loads.length := (List.getElem?_eq_some_iff.mp hl).1
    exact ⟨l, by rw [getElem?_loads_insertScript hn, hl], .refl _ l⟩
  | complete src result =>
    refine ⟨if awaits src l then l.settle result else l, ?_, ?_⟩
    · rw [getElem?_loads_complete, hl, Option.map_some]
    · split
      · exact ⟨fun r hr => by simp [Load.settle, hr], fun _ => rfl⟩
      · exact .refl _ l
  | fail => exact ⟨l, hl, .refl _ l⟩
  | defer => exact ⟨l, hl, .refl _ l⟩
  | @forget load hload =>
    by_cases hn : load = n
    · refine ⟨l.release, ?_, fun _ hr => hr, fun hmine => absurd (hn ▸ hload) hmine⟩
      rw [getElem?_loads_forget, if_pos hn, hl, Option.map_some]
    · exact ⟨l, by rw [getElem?_loads_forget, if_neg hn, hl], .refl _ l⟩

/-- A load stays at its number, and what it came to never changes. -/
theorem Changes.load (h : Changes mine env env') {n : Nat} {l : Load}
    (hl : env.loads[n]? = some l) : ∃ l', env'.loads[n]? = some l' ∧ LaterLoad (mine n) l l' := by
  refine h.keeps (P := fun e => ∃ l', e.loads[n]? = some l' ∧ LaterLoad (mine n) l l') ?_
    ⟨l, hl, .refl _ l⟩
  rintro a b hchange ⟨l', hl', hlater⟩
  obtain ⟨l'', hl'', hlater'⟩ := hchange.load hl'
  exact ⟨l'', hl'', hlater.trans hlater'⟩

theorem Changes.length_le (h : Changes mine env env') : env.loads.length ≤ env'.loads.length := by
  refine h.keeps (P := fun e => env.loads.length ≤ e.loads.length) ?_ (Nat.le_refl _)
  intro a b hchange hle
  cases hchange with
  | link => exact hle
  | insert => simpa [insertScript] using Nat.le_succ_of_le hle
  | complete => simpa [complete] using hle
  | fail => exact hle
  | defer => exact hle
  | forget => simpa [forget] using hle

theorem Changes.resultOf? (h : Changes mine env env') {n : Nat} {r : LoadResult}
    (hr : env.resultOf? n = some r) : env'.resultOf? n = some r := by
  obtain ⟨l, hl, hlr⟩ := Option.bind_eq_some_iff.mp hr
  obtain ⟨l', hl', hlater⟩ := h.load hl
  exact Option.bind_eq_some_iff.mpr ⟨l', hl', hlater.result r hlr⟩

/-! ### The record of completions -/

/-- Whether the record of completions holds each load once, and none that still waits. -/
structure Consistent (env : Environment) : Prop where
  nodup : env.completed.Nodup
  settled : ∀ n ∈ env.completed, (env.resultOf? n).isSome

/-- An environment in which nothing was completed is consistent. -/
theorem consistent_of_completed_eq_nil (h : env.completed = []) : env.Consistent where
  nodup := h ▸ .nil
  settled n hn := by simp [h] at hn

theorem mem_awaiting {src : String} {n : Nat} :
    n ∈ env.awaiting src ↔ ∃ l, env.loads[n]? = some l ∧ awaits src l := by
  simp [awaiting, List.mem_zipIdx_iff_getElem?]

theorem nodup_awaiting (src : String) : (env.awaiting src).Nodup := by
  have hfilter : env.awaiting src =
      (env.loads.zipIdx.filter fun l => awaits src l.1).map Prod.snd := by
    rw [← List.filterMap_eq_map, List.filterMap_filter]
    rfl
  have hsublist : (env.awaiting src).Sublist (List.range' 0 env.loads.length) := by
    rw [hfilter, ← List.zipIdx_map_snd 0 env.loads]
    exact List.filter_sublist.map Prod.snd
  exact hsublist.nodup List.nodup_range'

/-- Completions are recorded once each. -/
theorem Change.consistent (h : Change mine env env') (henv : env.Consistent) : env'.Consistent := by
  have hsettled : ∀ n ∈ env.completed, (env'.resultOf? n).isSome := by
    intro n hn
    obtain ⟨r, hr⟩ := Option.isSome_iff_exists.mp (henv.settled n hn)
    rw [(Changes.resultOf? (.single h) hr), Option.isSome_some]
  cases h with
  | link => exact ⟨henv.nodup, hsettled⟩
  | insert => exact ⟨henv.nodup, hsettled⟩
  | complete src result =>
    constructor
    · -- what is recorded has settled, and only loads that wait are recorded now
      refine List.nodup_append.mpr ⟨henv.nodup, nodup_awaiting src, ?_⟩
      rintro n hn m hm rfl
      obtain ⟨l, hl, hwaits⟩ := mem_awaiting.mp hm
      have hresult : (env.resultOf? n).isSome := henv.settled n hn
      have hnone : l.result.isNone := by
        rw [awaits, Bool.and_eq_true] at hwaits
        exact hwaits.2
      rw [resultOf?, hl, Option.bind_some] at hresult
      rw [Option.isNone_iff_eq_none] at hnone
      rw [hnone] at hresult
      cases hresult
    · intro n hn
      rcases List.mem_append.mp hn with hn | hn
      · exact hsettled n hn
      · obtain ⟨l, hl, hwaits⟩ := mem_awaiting.mp hn
        rw [resultOf?, getElem?_loads_complete, hl, Option.map_some, if_pos hwaits]
        rfl
  | fail => exact ⟨henv.nodup, hsettled⟩
  | defer => exact ⟨henv.nodup, hsettled⟩
  | forget => exact ⟨henv.nodup, hsettled⟩

theorem Changes.consistent (h : Changes mine env env') (henv : env.Consistent) :
    env'.Consistent :=
  h.keeps (fun _ _ hchange => hchange.consistent) henv

end Transclude.Environment
