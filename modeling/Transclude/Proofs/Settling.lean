/-
What loads come to.

Whatever is done to a page, what the load of a script comes to is decided by what was done before
its insertion and by what is done after it.  A load of a script that was made to fail has failed
from the start; where loads were not deferred, it has loaded from the start; otherwise it waits for
the first completion of its script, or for the end of the page.

* `Operation`, `Environment.use` — what can be done to a page, and a page after that;
* `Environment.fate` — what a load comes to, by the operations before and after its insertion;
* `Environment.outstanding` — how many deferred loads of a script began since its last completion;
* `loads_settle_once` — loads come to their fate, and completions and the list of pending scripts
  count them by what is outstanding.

Design notes: after the end of a page its loads can still be polled and dropped, and nothing else
can be done to it.  What is said of loads needs no such condition; completions and pending scripts
are looked at before the end.
-/
import Mathlib.Data.List.Induction
import Mathlib.Data.String.Basic
import Transclude.Proofs.Page

namespace Transclude

/-! ### Sorted texts -/

namespace Text

theorem pairwise_insertSorted {s : String} {ts : List String} (h : ts.Pairwise (· ≤ ·)) :
    (insertSorted s ts).Pairwise (· ≤ ·) := by
  induction ts with
  | nil => exact List.pairwise_singleton _ _
  | cons t ts ih =>
    obtain ⟨ht, hts⟩ := List.pairwise_cons.mp h
    rw [insertSorted]
    split
    · rename_i hlt
      refine List.pairwise_cons.mpr ⟨fun u hu => ?_, h⟩
      rcases List.mem_cons.mp hu with rfl | hu
      · exact hlt.le
      · exact hlt.le.trans (ht u hu)
    · rename_i hle
      refine List.pairwise_cons.mpr ⟨fun u hu => ?_, ih hts⟩
      rcases mem_insertSorted.mp hu with rfl | hu
      · exact not_lt.mp hle
      · exact ht u hu

theorem pairwise_sort (xs : List String) : (sort xs).Pairwise (· ≤ ·) := by
  induction xs with
  | nil => exact .nil
  | cons x xs ih => exact pairwise_insertSorted ih

theorem mem_dropRepeated {a : String} {xs : List String} : a ∈ dropRepeated xs ↔ a ∈ xs := by
  fun_induction dropRepeated xs with
  | case1 => rfl
  | case2 s => rfl
  | case3 s ts ih => simp [ih]
  | case4 s t ts hst ih => simp [ih]

theorem pairwise_dropRepeated {xs : List String} (h : xs.Pairwise (· ≤ ·)) :
    (dropRepeated xs).Pairwise (· < ·) := by
  fun_induction dropRepeated xs with
  | case1 => exact .nil
  | case2 s => exact List.pairwise_singleton _ _
  | case3 s ts ih => exact ih (List.pairwise_cons.mp h).2
  | case4 s t ts hst ih =>
    obtain ⟨hs, hts⟩ := List.pairwise_cons.mp h
    refine List.pairwise_cons.mpr ⟨fun u hu => ?_, ih hts⟩
    -- `t` is the least of the others, and it is not `s`
    have hlt : s < t := lt_of_le_of_ne (hs t (by simp)) hst
    rcases List.mem_cons.mp (mem_dropRepeated.mp hu) with rfl | hu
    · exact hlt
    · exact hlt.trans_le ((List.pairwise_cons.mp hts).1 u hu)

/-- Sorted texts, each once, are strictly increasing. -/
theorem pairwise_sortDistinct (xs : List String) : (sortDistinct xs).Pairwise (· < ·) :=
  pairwise_dropRepeated (pairwise_sort xs)

theorem mem_sortDistinct {a : String} {xs : List String} : a ∈ sortDistinct xs ↔ a ∈ xs := by
  rw [sortDistinct, mem_dropRepeated, mem_sort]

end Text

/-! ### Operations -/

/-- Whether a poll shows what a load came to. -/
def LoadPoll.isSettled : LoadPoll → Bool
  | .settled _ => true
  | _ => false

/-- Something done to a page or to one of its loads. -/
inductive Operation where
  | link (href : String)
  | present (src : String)
  | defer
  | fail (src : String)
  | insert (src : String)
  | complete (src : String) (result : LoadResult)
  | poll (load : Nat)
  | forget (load : Nat)
  | close
  deriving DecidableEq

namespace Operation

/-- Whether a script is inserted. -/
def inserts : Operation → Bool
  | .insert _ => true
  | _ => false

/-- Whether a script is completed. -/
def completes (src : String) : Operation → Bool
  | .complete s _ => s == src
  | _ => false

/-- What a waiting load of a script comes to. -/
def settles? (src : String) : Operation → Option LoadResult
  | .complete s result => if s = src then some result else none
  | .close => some (.failed ⟨src, "environment dropped before the script finished loading"⟩)
  | _ => none

end Operation

namespace Environment

/-- The page after an operation. -/
def perform (env : Environment) : Operation → Environment
  | .link href => env.insertStylesheet href
  | .present src => env.addScript src
  | .defer => env.defer
  | .fail src => env.failScript src
  | .insert src => (env.insertScript src).1
  | .complete src result => (env.complete src result).1
  | .poll load => (env.poll load).1
  | .forget load => env.forget load
  | .close => env.close

/-- A page after some operations. -/
def use (ops : List Operation) : Environment := ops.foldl perform {}

/-- How many loads some operations begin. -/
def insertions (ops : List Operation) : Nat := ops.countP Operation.inserts

/-- What the load of a script comes to that is inserted between some operations and others; `none`
while it waits. -/
def fate (before : List Operation) (src : String) (later : List Operation) : Option LoadResult :=
  if .fail src ∈ before then some (.failed ⟨src, "load error"⟩)
  else if .defer ∈ before then later.findSome? (Operation.settles? src)
  else some .loaded

/-- Whether a deferred load of a script begins at a place among some operations, and the script is
not completed after that. -/
def IsOutstanding (src : String) (ops : List Operation) (place : Nat) : Prop :=
  ops[place]? = some (.insert src) ∧ .fail src ∉ ops.take place ∧ .defer ∈ ops.take place ∧
    ∀ op ∈ ops.drop (place + 1), op.completes src = false

instance (src : String) (ops : List Operation) (place : Nat) :
    Decidable (IsOutstanding src ops place) := by
  unfold IsOutstanding
  infer_instance

/-- How many deferred loads of a script began since it was completed last. -/
def outstanding (src : String) (ops : List Operation) : Nat :=
  (List.range ops.length).countP fun place => IsOutstanding src ops place

/-- Whether somebody waits for a load: it was not dropped, and no poll has shown what it came to. -/
def Awaited (load : Nat) (ops : List Operation) : Prop :=
  .forget load ∉ ops ∧ ∀ place < ops.length, ops[place]? = some (.poll load) →
    ((use (ops.take place)).poll load).2.isSettled = false

instance (load : Nat) (ops : List Operation) : Decidable (Awaited load ops) := by
  unfold Awaited
  infer_instance

variable {env : Environment}

theorem use_concat (ops : List Operation) (op : Operation) :
    use (ops ++ [op]) = (use ops).perform op := by simp [use]

theorem use_append (ops more : List Operation) :
    use (ops ++ more) = more.foldl perform (use ops) := by simp [use]

/-- A poll leaves the page as it is, or it shows what a load came to and takes it. -/
theorem poll_cases (env : Environment) (load : Nat) :
    (env.poll load).1 = env ∨
      (env.poll load).1 = env.forget load ∧ (env.poll load).2.isSettled = true := by
  rw [poll]
  split
  · exact .inl rfl
  · split
    · exact .inl rfl
    · split
      · exact .inl rfl
      · exact .inr ⟨rfl, rfl⟩

/-! ### What a page was told -/

/-- Whether a page knows what it was told by some operations. -/
structure Told (env : Environment) (ops : List Operation) : Prop where
  failing : ∀ src, src ∈ env.failing ↔ .fail src ∈ ops
  deferred : env.deferred = true ↔ .defer ∈ ops
  length : env.loads.length = insertions ops

theorem Told.step {ops : List Operation} (h : env.Told ops) (op : Operation) :
    (env.perform op).Told (ops ++ [op]) := by
  have hquiet : ∀ env' : Environment, env'.failing = env.failing → env'.deferred = env.deferred →
      env'.loads.length = env.loads.length → (∀ src, op ≠ .fail src) → op ≠ .defer →
      op.inserts = false → env'.Told (ops ++ [op]) := by
    intro env' hfailing hdeferred hlength hfail hdefer hinserts
    refine ⟨fun src => ?_, ?_, ?_⟩
    · simp [hfailing, h.failing, Ne.symm (hfail src)]
    · simp [hdeferred, h.deferred, Ne.symm hdefer]
    · simp [hlength, h.length, insertions, hinserts]
  cases op with
  | fail src =>
    refine ⟨fun s => ?_, ?_, ?_⟩
    · simp [perform, failScript, h.failing, or_comm]
    · simp [perform, failScript, h.deferred]
    · simp [perform, failScript, h.length, insertions, Operation.inserts]
  | defer =>
    refine ⟨fun s => ?_, ?_, ?_⟩
    · simp [perform, defer, h.failing]
    · simp [perform, defer]
    · simp [perform, defer, h.length, insertions, Operation.inserts]
  | insert src =>
    refine ⟨fun s => ?_, ?_, ?_⟩
    · simp [perform, insertScript, addScript, h.failing]
    · simp [perform, insertScript, addScript, h.deferred]
    · simp [perform, insertScript, h.length, insertions, Operation.inserts]
  | link href => exact hquiet _ rfl rfl rfl (by simp) (by simp) rfl
  | present src => exact hquiet _ rfl rfl rfl (by simp) (by simp) rfl
  | complete src result =>
    exact hquiet _ rfl rfl (List.length_map _) (by simp) (by simp) rfl
  | poll load =>
    rcases poll_cases env load with hpoll | ⟨hpoll, -⟩
    · exact hquiet _ (by rw [perform, hpoll]) (by rw [perform, hpoll]) (by rw [perform, hpoll])
        (by simp) (by simp) rfl
    · rw [perform, hpoll]
      exact hquiet _ rfl rfl (List.length_modify _ _ _) (by simp) (by simp) rfl
  | forget load => exact hquiet _ rfl rfl (List.length_modify _ _ _) (by simp) (by simp) rfl
  | close => exact hquiet _ rfl rfl (List.length_map _) (by simp) (by simp) rfl

theorem told_use (ops : List Operation) : (use ops).Told ops := by
  induction ops using List.reverseRecOn with
  | nil => exact ⟨by simp [use], by simp [use], rfl⟩
  | append_singleton ops op ih =>
    rw [use_concat]
    exact ih.step op

/-- The load that begins at an insertion. -/
theorem newLoad_use (ops : List Operation) (src : String) :
    ((use ops).newLoad src).result = fate ops src [] := by
  simp only [newLoad, fate, List.contains_iff_mem, (told_use ops).failing, (told_use ops).deferred]
  rfl

/-! ### What becomes of a load -/

/-- What an operation does to a load, known by its number. -/
structure Performs (env : Environment) (op : Operation) (n : Nat) (l l' : Load) : Prop where
  src : l'.src = l.src
  /-- A load that waits may settle, and one that has settled stays as it is. -/
  result : l'.result = l.result.or (op.settles? l.src)
  released : op ≠ .forget n → (op = .poll n → (env.poll n).2.isSettled = false) →
    l'.released = l.released

theorem performs_forget {op : Operation} {n load : Nat} {l : Load}
    (hl : env.loads[n]? = some l) (hsettles : op.settles? l.src = none)
    (hreleased : load = n → ¬(op ≠ .forget n ∧
      (op = .poll n → (env.poll n).2.isSettled = false))) :
    ∃ l', (env.forget load).loads[n]? = some l' ∧ env.Performs op n l l' := by
  rw [getElem?_loads_forget, hl]
  split
  · rename_i hload
    exact ⟨l.release, rfl, rfl, by simp [Load.release, hsettles],
      fun hforget hpoll => absurd ⟨hforget, hpoll⟩ (hreleased hload)⟩
  · exact ⟨l, rfl, rfl, by simp [hsettles], fun _ _ => rfl⟩

theorem performs (op : Operation) {n : Nat} {l : Load} (hl : env.loads[n]? = some l) :
    ∃ l', (env.perform op).loads[n]? = some l' ∧ env.Performs op n l l' := by
  have hkeep : op.settles? l.src = none → env.Performs op n l l := fun hsettles =>
    ⟨rfl, by simp [hsettles], fun _ _ => rfl⟩
  cases op with
  | link href => exact ⟨l, hl, hkeep rfl⟩
  | present src => exact ⟨l, hl, hkeep rfl⟩
  | defer => exact ⟨l, hl, hkeep rfl⟩
  | fail src => exact ⟨l, hl, hkeep rfl⟩
  | insert src =>
    have hn : n < env.loads.length := (List.getElem?_eq_some_iff.mp hl).1
    exact ⟨l, by rw [perform, getElem?_loads_insertScript hn, hl], hkeep rfl⟩
  | complete src result =>
    refine ⟨if awaits src l then l.settle result else l, ?_, ?_⟩
    · rw [perform, getElem?_loads_complete, hl, Option.map_some]
    · by_cases hsrc : src = l.src
      · cases hresult : l.result with
        | none =>
          rw [if_pos (by simp [awaits, Load.waits, hsrc, hresult])]
          exact ⟨rfl, by simp [Load.settle, Operation.settles?, hsrc, hresult], fun _ _ => rfl⟩
        | some r =>
          rw [if_neg (by simp [awaits, Load.waits, hresult])]
          exact ⟨rfl, by simp [hresult], fun _ _ => rfl⟩
      · rw [if_neg (by simp [awaits, Ne.symm hsrc])]
        exact hkeep (if_neg hsrc)
  | poll load =>
    rcases poll_cases env load with hpoll | ⟨hpoll, hsettled⟩
    · exact ⟨l, by rw [perform, hpoll, hl], hkeep rfl⟩
    · rw [perform, hpoll]
      refine performs_forget hl rfl fun hload hnot => ?_
      rw [hload] at hnot hsettled
      simp [hnot.2 rfl] at hsettled
  | forget load => exact performs_forget hl rfl fun h hnot => hnot.1 (by rw [h])
  | close =>
    refine ⟨l.abandon, by simp [perform, close, hl], rfl, ?_, fun _ _ => rfl⟩
    cases hresult : l.result <;> simp [Load.abandon, Load.settle, Operation.settles?, hresult]

/-- What a load comes to by some operations: nothing new if it has settled, and else what the first
of them brings that settles it. -/
theorem exists_load_foldl {n : Nat} {l : Load} (later : List Operation)
    (hl : env.loads[n]? = some l) :
    ∃ l', (later.foldl perform env).loads[n]? = some l' ∧ l'.src = l.src ∧
      l'.result = l.result.or (later.findSome? (Operation.settles? l.src)) := by
  induction later generalizing env l with
  | nil => exact ⟨l, hl, rfl, by simp⟩
  | cons op later ih =>
    obtain ⟨l', hl', hperforms⟩ := performs op hl
    obtain ⟨l'', hl'', hsrc, hresult⟩ := ih hl'
    refine ⟨l'', hl'', hsrc.trans hperforms.src, ?_⟩
    rw [hresult, hperforms.result, hperforms.src, List.findSome?_cons]
    cases op.settles? l.src <;> simp

theorem load_use_insert (before : List Operation) (src : String) (later : List Operation) :
    ∃ l, (use (before ++ .insert src :: later)).loads[insertions before]? = some l ∧
      l.src = src ∧ l.result = fate before src later := by
  have hnew : ((use before).perform (.insert src)).loads[insertions before]? =
      some ((use before).newLoad src) := by
    simp [perform, insertScript, ← (told_use before).length]
  obtain ⟨l, hl, hsrc, hresult⟩ := exists_load_foldl later hnew
  refine ⟨l, ?_, hsrc, ?_⟩
  · rw [use_append, List.foldl_cons]
    exact hl
  · rw [hresult, newLoad_use]
    simp only [fate]
    split
    · rfl
    · split <;> simp [newLoad]

theorem Awaited.of_concat {n : Nat} {ops : List Operation} {op : Operation}
    (h : Awaited n (ops ++ [op])) : Awaited n ops := by
  refine ⟨fun hmem => h.1 (by simp [hmem]), fun place hplace hop => ?_⟩
  have hlater := h.2 place (by simp; omega) (by rw [List.getElem?_append_left hplace, hop])
  rwa [List.take_append_of_le_length hplace.le] at hlater

/-- A load that an operation begins is not released. -/
theorem released_of_new {n : Nat} {ops : List Operation} {op : Operation}
    (hold : (use ops).loads[n]? = none) {l : Load}
    (hl : ((use ops).perform op).loads[n]? = some l) : l.released = false := by
  have hn : insertions ops ≤ n := by
    rw [← (told_use ops).length]
    exact List.getElem?_eq_none_iff.mp hold
  have hlt : n < insertions (ops ++ [op]) := by
    rw [← ((told_use ops).step op).length]
    exact (List.getElem?_eq_some_iff.mp hl).1
  cases op with
  | insert src =>
    have heq : n = (use ops).loads.length := by
      rw [(told_use ops).length]
      simp [insertions, Operation.inserts] at hn hlt ⊢
      omega
    simp [perform, insertScript, heq] at hl
    rw [← hl, newLoad]
  | _ =>
    simp [insertions, Operation.inserts] at hn hlt
    omega

/-- A load that somebody waits for is not released. -/
theorem released_of_awaited {n : Nat} {ops : List Operation} (h : Awaited n ops) {l : Load}
    (hl : (use ops).loads[n]? = some l) : l.released = false := by
  induction ops using List.reverseRecOn generalizing l with
  | nil => simp [use] at hl
  | append_singleton ops op ih =>
    rw [use_concat] at hl
    -- the last operation began the load or found it there
    cases hold : (use ops).loads[n]? with
    | none => exact released_of_new hold hl
    | some l₀ =>
      obtain ⟨l', hl', hperforms⟩ := performs op hold
      rw [hl'] at hl
      cases hl
      rw [hperforms.released (fun hop => h.1 (by simp [hop])) fun hop => ?_]
      · exact ih h.of_concat hold
      · simpa using h.2 ops.length (by simp) (by simp [hop])

/-! ### What is outstanding -/

theorem countP_awaits_forget (env : Environment) (load : Nat) (src : String) :
    (env.forget load).loads.countP (awaits src) = env.loads.countP (awaits src) := by
  have hsame : (env.forget load).loads.map (awaits src) = env.loads.map (awaits src) := by
    refine List.ext_getElem? fun n => ?_
    rw [List.getElem?_map, List.getElem?_map, getElem?_loads_forget]
    split
    · rw [Option.map_map]
      rfl
    · rfl
  simpa [List.countP_map] using congrArg (List.countP id) hsame

theorem countP_awaits_complete (env : Environment) (src s : String) (result : LoadResult) :
    (env.complete s result).1.loads.countP (awaits src) =
      if s = src then 0 else env.loads.countP (awaits src) := by
  simp only [complete, List.countP_map]
  split
  · rename_i hs
    subst hs
    refine List.countP_eq_zero.mpr fun l _ => ?_
    by_cases hl : awaits s l = true
    · simp only [Function.comp, if_pos hl]
      simp [awaits]
    · simp only [Function.comp, if_neg hl]
      exact hl
  · rename_i hs
    refine List.countP_congr fun l _ => ?_
    by_cases hl : awaits s l = true
    · have hsrc : l.src = s := by
        simp only [awaits, Bool.and_eq_true, beq_iff_eq] at hl
        exact hl.1
      simp only [Function.comp, if_pos hl]
      simp [awaits, hsrc, hs]
    · simp only [Function.comp, if_neg hl]

theorem outstanding_concat (src : String) (ops : List Operation) (op : Operation) :
    outstanding src (ops ++ [op]) = if op.completes src then 0 else
      outstanding src ops +
        if op = .insert src ∧ .fail src ∉ ops ∧ .defer ∈ ops then 1 else 0 := by
  have hlast : IsOutstanding src (ops ++ [op]) ops.length ↔
      op = .insert src ∧ .fail src ∉ ops ∧ .defer ∈ ops := by
    simp [IsOutstanding]
  have hearlier : ∀ place ∈ List.range ops.length, (IsOutstanding src (ops ++ [op]) place ↔
      op.completes src = false ∧ IsOutstanding src ops place) := by
    intro place hplace
    have hlt : place < ops.length := List.mem_range.mp hplace
    simp only [IsOutstanding, List.getElem?_append_left hlt, List.take_append_of_le_length hlt.le,
      List.drop_append_of_le_length (Nat.succ_le_of_lt hlt), List.forall_mem_append]
    simp
    tauto
  rw [outstanding, List.length_append, List.length_singleton, List.range_succ, List.countP_append,
    List.countP_singleton]
  simp only [hlast, decide_eq_true_eq]
  cases hop : op.completes src with
  | true =>
    have hnot : ¬(op = .insert src ∧ .fail src ∉ ops ∧ .defer ∈ ops) := by
      rintro ⟨rfl, -⟩
      cases hop
    have hnone : (List.range ops.length).countP
        (fun place => IsOutstanding src (ops ++ [op]) place) = 0 := by
      refine List.countP_eq_zero.mpr fun place hplace => ?_
      simp [hearlier place hplace, hop]
    simp [hnone, hnot]
  | false =>
    have hsame : (List.range ops.length).countP
        (fun place => IsOutstanding src (ops ++ [op]) place) = outstanding src ops := by
      refine List.countP_congr fun place hplace => ?_
      simp [hearlier place hplace, hop]
    simp [hsame]

/-- As long as the page is there, the loads of a script that wait are those outstanding. -/
theorem countP_awaits_use (src : String) {ops : List Operation} (h : .close ∉ ops) :
    (use ops).loads.countP (awaits src) = outstanding src ops := by
  induction ops using List.reverseRecOn with
  | nil => rfl
  | append_singleton ops op ih =>
    rw [List.mem_append, not_or] at h
    rw [use_concat, outstanding_concat, ← ih h.1]
    cases op with
    | insert s =>
      have hnew : awaits src ((use ops).newLoad s) = true ↔
          s = src ∧ .fail src ∉ ops ∧ .defer ∈ ops := by
        have hsrc : ((use ops).newLoad s).src = s := rfl
        simp only [awaits, Load.waits, newLoad_use, hsrc, fate, Bool.and_eq_true, beq_iff_eq]
        refine and_congr_right fun hs => ?_
        subst hs
        by_cases hfail : Operation.fail s ∈ ops
        · simp [hfail]
        · by_cases hdefer : Operation.defer ∈ ops <;> simp [hfail, hdefer]
      simp [perform, insertScript, List.countP_append, List.countP_singleton, hnew,
        Operation.completes]
    | complete s result =>
      rw [perform, countP_awaits_complete]
      simp [Operation.completes]
    | poll load =>
      rcases poll_cases (use ops) load with hpoll | ⟨hpoll, -⟩
      · simp [perform, hpoll, Operation.completes]
      · simp [perform, hpoll, countP_awaits_forget, Operation.completes]
    | forget load => simp [perform, countP_awaits_forget, Operation.completes]
    | close => simp at h
    | link href => rfl
    | present s => rfl
    | defer => rfl
    | fail s => rfl

/-- The scripts with outstanding loads are listed in order, each once. -/
theorem pending_use {ops : List Operation} (h : .close ∉ ops) :
    (use ops).pending.Pairwise (· < ·) ∧
      ∀ src, src ∈ (use ops).pending ↔ 0 < outstanding src ops := by
  refine ⟨Text.pairwise_sortDistinct _, fun src => ?_⟩
  rw [pending, Text.mem_sortDistinct, ← countP_awaits_use src h, List.countP_pos_iff]
  simp only [List.mem_map, List.mem_filter, awaits, Bool.and_eq_true, beq_iff_eq]
  constructor
  · rintro ⟨l, ⟨hl, hwaits⟩, hsrc⟩
    exact ⟨l, hl, hsrc, hwaits⟩
  · rintro ⟨l, hl, hsrc, hwaits⟩
    exact ⟨l, ⟨hl, hwaits⟩, hsrc⟩

theorem poll_of_awaited {n : Nat} {ops : List Operation} (hn : n < insertions ops)
    (h : Awaited n ops) :
    ((use ops).poll n).2 = ((use ops).resultOf? n).elim .pending .settled := by
  rw [← (told_use ops).length] at hn
  obtain ⟨l, hl⟩ : ∃ l, (use ops).loads[n]? = some l := ⟨_, List.getElem?_eq_getElem hn⟩
  rw [poll, resultOf?, hl, Option.bind_some]
  simp only [released_of_awaited h hl, Bool.false_eq_true, if_false]
  cases l.result <;> rfl

/-- **Every load settles once, as it is bound to.**  Whatever is done to a page, what a load comes
to is its fate; once it has come to something this never changes; and whoever waits for it is shown
just that.  Completing a script settles as many loads as deferred ones of it began since its last
completion, dropped or not; the pending scripts are those that have any, in order and each once. -/
theorem loads_settle_once (ops : List Operation) :
    (∀ before src later, ops = before ++ .insert src :: later →
      (use ops).resultOf? (insertions before) = fate before src later) ∧
    (∀ n result, (use ops).resultOf? n = some result →
      ∀ more, (use (ops ++ more)).resultOf? n = some result) ∧
    (∀ n < insertions ops, Awaited n ops →
      ((use ops).poll n).2 = ((use ops).resultOf? n).elim .pending .settled) ∧
    (.close ∉ ops →
      (∀ src result, ((use ops).complete src result).2 = outstanding src ops) ∧
      (use ops).pending.Pairwise (· < ·) ∧
      ∀ src, src ∈ (use ops).pending ↔ 0 < outstanding src ops) := by
  refine ⟨?_, ?_, fun n hn => poll_of_awaited hn, fun hclose => ⟨?_, pending_use hclose⟩⟩
  · rintro before src later rfl
    obtain ⟨l, hl, -, hresult⟩ := load_use_insert before src later
    rw [resultOf?, hl, Option.bind_some, hresult]
  · intro n result hresult more
    obtain ⟨l, hl, hsettled⟩ := Option.bind_eq_some_iff.mp hresult
    obtain ⟨l', hl', -, hlater⟩ := exists_load_foldl more hl
    rw [use_append, resultOf?, hl', Option.bind_some, hlater, hsettled, Option.some_or]
  · exact fun src _ => countP_awaits_use src hclose

/-- Two loads of one script, one of them dropped and both completed, a failing one in between, and
one more that waits for the end of the page. -/
theorem loads_settle_once_of_three_loads :
    let ops : List Operation := [.defer, .insert "a", .fail "b", .insert "b", .insert "a",
      .forget 2, .poll 0, .complete "a" .loaded, .insert "a"]
    ((use ops).resultOf? 0 = some .loaded ∧
      (use ops).resultOf? 1 = some (.failed ⟨"b", "load error"⟩)) ∧
    ((use ops).poll 0).2 = .settled .loaded ∧
    (∀ result, ((use (ops.take 7)).complete "a" result).2 = 2) ∧
    (use ops).pending.Pairwise (· < ·) ∧ "a" ∈ (use ops).pending := by
  intro ops
  obtain ⟨hfate, -, hpoll, hpage⟩ := loads_settle_once ops
  obtain ⟨-, hpending, hmem⟩ := hpage (by decide)
  have hfirst := hfate [.defer] "a" (ops.drop 2) rfl
  have hsecond := hfate (ops.take 3) "b" (ops.drop 4) rfl
  have hresult : (use ops).resultOf? 0 = some .loaded := hfirst.trans (by decide)
  refine ⟨⟨hresult, hsecond.trans (by decide)⟩, ?_, ?_, hpending, (hmem "a").mpr (by decide)⟩
  · rw [hpoll 0 (by decide) (by decide), hresult]
    rfl
  · intro result
    rw [((loads_settle_once (ops.take 7)).2.2.2 (by decide)).1 "a" result]
    decide

end Environment

end Transclude
