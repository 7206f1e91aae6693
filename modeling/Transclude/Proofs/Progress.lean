/-
What an import does to the page.

An import changes the page twice over: when it begins, it links and inserts what its document refers
to, and from then on each of its polls takes the results of loads that it inserted.

* `changes_install`, `exists_forgetAll_pollLoads` — both are changes in the sense of a page, and a
  poll forgets no loads but those of its import;
* `inserted_install` — the scripts an import inserts, and the loads that begin with them;
* `pollLoads_eq` — a poll finds out what every load of its import has come to by then;
* `perm_arrange` — whatever the order of its looks is, a poll has one look at each load.

Design notes: between two polls an import knows of its loads what it saw of the page last, so that
`Held` need only relate this to the page as it is now.
-/
import Mathlib.Data.List.Nodup
import Mathlib.Data.List.Perm.Basic
import Transclude.Import.Progress
import Transclude.Proofs.Page

namespace Transclude.Import

open Environment (Change Changes changes_forgetAll)
open Production (Notice)

variable {mine : Nat → Prop}

/-! ### Beginning -/

theorem changes_linkStylesheets (location : String) (rs : List Reference)
    (s : Environment × Report) :
    Changes mine s.1 (rs.foldl (linkStylesheet location) s).1 := by
  induction rs generalizing s with
  | nil => exact .refl
  | cons r rs ih =>
    refine Relation.ReflTransGen.trans ?_ (ih (linkStylesheet location s r))
    rw [linkStylesheet]
    split
    · exact .refl
    · rename_i habsent
      exact .single (.link (Bool.not_eq_true _ ▸ habsent))

theorem changes_includeScripts (location : String) (rs : List Reference)
    (s : Environment × Progress) :
    Changes mine s.1 (rs.foldl (includeScript location) s).1 := by
  induction rs generalizing s with
  | nil => exact .refl
  | cons r rs ih =>
    refine Relation.ReflTransGen.trans ?_ (ih (includeScript location s r))
    rw [includeScript]
    split
    · exact .refl
    · rename_i habsent
      exact .single (.insert (Bool.not_eq_true _ ▸ habsent))

/-- What a document holds is linked and inserted by changes. -/
theorem changes_install (location : String) (document : Document) (registry : Registry)
    (env : Environment) : Changes mine env (install location document registry env).2.1 :=
  (changes_linkStylesheets location document.stylesheets (env, _)).trans
    (changes_includeScripts location document.scripts (_, _))

theorem mem_stylesheets_linkStylesheets {location : String} {rs : List Reference}
    (s : Environment × Report) {r : Reference} (hr : r ∈ rs) :
    Location.resolve location r.src ∈
      (rs.foldl (linkStylesheet location) s).1.stylesheets := by
  induction rs generalizing s with
  | nil => cases hr
  | cons r' rs ih =>
    rcases List.mem_cons.mp hr with rfl | hr
    · have hchanges : Changes (fun _ => True) _ _ :=
        changes_linkStylesheets location rs (linkStylesheet location s r)
      refine hchanges.grows.stylesheets.subset ?_
      rw [linkStylesheet]
      split
      · rename_i hpresent
        simpa [Environment.hasStylesheet] using hpresent
      · simp [Environment.insertStylesheet]
    · exact ih (linkStylesheet location s r') hr

theorem mem_scripts_includeScripts {location : String} {rs : List Reference}
    (s : Environment × Progress) {r : Reference} (hr : r ∈ rs) :
    Location.resolve location r.src ∈ (rs.foldl (includeScript location) s).1.scripts := by
  induction rs generalizing s with
  | nil => cases hr
  | cons r' rs ih =>
    rcases List.mem_cons.mp hr with rfl | hr
    · have hchanges : Changes (fun _ => True) _ _ :=
        changes_includeScripts location rs (includeScript location s r)
      refine hchanges.grows.scripts.subset ?_
      rw [includeScript]
      split
      · rename_i hpresent
        simpa [Environment.hasScript] using hpresent
      · simp [Environment.insertScript, Environment.addScript]
    · exact ih (includeScript location s r') hr

/-- Whether an environment lists all that a document at a location refers to. -/
structure Lists (env : Environment) (location : String) (document : Document) : Prop where
  stylesheets : ∀ r ∈ document.stylesheets, Location.resolve location r.src ∈ env.stylesheets
  scripts : ∀ r ∈ document.scripts, Location.resolve location r.src ∈ env.scripts

theorem Lists.grows {env env' : Environment} {location : String} {document : Document}
    (h : Lists env location document) (hgrows : env.Grows env') : Lists env' location document where
  stylesheets r hr := hgrows.stylesheets.subset (h.stylesheets r hr)
  scripts r hr := hgrows.scripts.subset (h.scripts r hr)

/-- Once a document is installed, all that it refers to is listed. -/
theorem lists_install (location : String) (document : Document) (registry : Registry)
    (env : Environment) : Lists (install location document registry env).2.1 location document where
  stylesheets r hr := by
    have hincluded : Changes (fun _ => True)
        (document.stylesheets.foldl (linkStylesheet location)
          (env, { snippets := document.registeredNames })).1
        (install location document registry env).2.1 :=
      changes_includeScripts location document.scripts (_, _)
    exact hincluded.grows.stylesheets.subset (mem_stylesheets_linkStylesheets _ hr)
  scripts r hr := mem_scripts_includeScripts _ hr

/-- What the insertion of scripts leaves: for the first reference to each script that was not there,
in the order of the references, the script and a load that begins with the next free number. -/
structure Inserted (location : String) (rs : List Reference) (env env' : Environment)
    (loads : List ScriptLoad) : Prop where
  references : (loads.map fun l => (l.src, l.hook)).Sublist
    (rs.map fun r => (Location.resolve location r.src, r.onLoaded))
  first : ∀ l ∈ loads,
    (rs.find? fun r => Location.resolve location r.src == l.src).map Reference.onLoaded =
      some l.hook
  absent : ∀ l ∈ loads, l.src ∉ env.scripts
  distinct : (loads.map ScriptLoad.src).Nodup
  listed : env'.scripts = env.scripts ++ loads.map ScriptLoad.src
  unknown : ∀ l ∈ loads, l.result = none
  numbers : loads.map ScriptLoad.load = List.range' env.loads.length loads.length
  begun : env'.loads = env.loads ++ loads.map fun l => env.newLoad l.src

theorem includeScript_of_present {location : String} {s : Environment × Progress} {r : Reference}
    (h : s.1.hasScript (Location.resolve location r.src) = true) :
    (includeScript location s r).1 = s.1 ∧ (includeScript location s r).2.loads = s.2.loads := by
  rw [includeScript, if_pos h]
  exact ⟨rfl, rfl⟩

theorem includeScript_of_absent {location : String} {s : Environment × Progress} {r : Reference}
    (h : ¬s.1.hasScript (Location.resolve location r.src) = true) :
    (includeScript location s r).1 = (s.1.insertScript (Location.resolve location r.src)).1 ∧
      (includeScript location s r).2.loads = s.2.loads ++
        [⟨Location.resolve location r.src, r.onLoaded, s.1.loads.length, none⟩] := by
  rw [includeScript, if_neg h]
  exact ⟨rfl, rfl⟩

/-- A reference to a script that is present. -/
theorem Inserted.skip {location : String} {r : Reference} {rs : List Reference}
    {env env' : Environment} {loads : List ScriptLoad}
    (hpresent : env.hasScript (Location.resolve location r.src) = true)
    (h : Inserted location rs env env' loads) : Inserted location (r :: rs) env env' loads where
  references := h.references.cons _
  first l hl := by
    have hne : Location.resolve location r.src ≠ l.src := by
      intro heq
      rw [heq, Environment.hasScript, List.contains_iff_mem] at hpresent
      exact h.absent l hl hpresent
    simpa [hne] using h.first l hl
  absent := h.absent
  distinct := h.distinct
  listed := h.listed
  unknown := h.unknown
  numbers := h.numbers
  begun := h.begun

/-- A script that is inserted before the others. -/
theorem Inserted.cons {location : String} {r : Reference} {rs : List Reference}
    {env env' : Environment} {loads : List ScriptLoad}
    (habsent : ¬env.hasScript (Location.resolve location r.src) = true)
    (h : Inserted location rs (env.insertScript (Location.resolve location r.src)).1 env' loads) :
    Inserted location (r :: rs) env env'
      (⟨Location.resolve location r.src, r.onLoaded, env.loads.length, none⟩ :: loads) where
  references := h.references.cons_cons _
  first l hl := by
    rcases List.mem_cons.mp hl with rfl | hl
    · simp
    · have hne : Location.resolve location r.src ≠ l.src := by
        have hl' := h.absent l hl
        simp only [Environment.insertScript, Environment.addScript, List.mem_append,
          List.mem_singleton, not_or] at hl'
        exact Ne.symm hl'.2
      simpa [hne] using h.first l hl
  absent l hl := by
    rcases List.mem_cons.mp hl with rfl | hl
    · simpa [Environment.hasScript] using habsent
    · have hl' := h.absent l hl
      simp only [Environment.insertScript, Environment.addScript, List.mem_append, not_or] at hl'
      exact hl'.1
  distinct := by
    rw [List.map_cons, List.nodup_cons]
    refine ⟨?_, h.distinct⟩
    intro hmem
    obtain ⟨l, hl, hsrc⟩ := List.mem_map.mp hmem
    exact h.absent l hl (by simp [Environment.insertScript, Environment.addScript, hsrc])
  listed := by
    rw [h.listed]
    simp [Environment.insertScript, Environment.addScript]
  unknown l hl := by
    rcases List.mem_cons.mp hl with rfl | hl
    · rfl
    · exact h.unknown l hl
  numbers := by
    have hnumbers := h.numbers
    simp only [Environment.insertScript, List.length_append, List.length_singleton] at hnumbers
    rw [List.map_cons, hnumbers, List.length_cons, List.range'_succ]
  begun := by
    rw [h.begun]
    simp [Environment.insertScript, Environment.addScript, Environment.newLoad]

theorem exists_inserted_includeScripts (location : String) (rs : List Reference)
    (s : Environment × Progress) :
    ∃ loads, (rs.foldl (includeScript location) s).2.loads = s.2.loads ++ loads ∧
      Inserted location rs s.1 (rs.foldl (includeScript location) s).1 loads := by
  induction rs generalizing s with
  | nil => exact ⟨[], by simp, by constructor <;> simp⟩
  | cons r rs ih =>
    rw [List.foldl_cons]
    obtain ⟨loads, hloads, h⟩ := ih (includeScript location s r)
    by_cases hpresent : s.1.hasScript (Location.resolve location r.src) = true
    · obtain ⟨henv, hprogress⟩ := includeScript_of_present hpresent
      rw [henv] at h
      rw [hprogress] at hloads
      exact ⟨loads, hloads, h.skip hpresent⟩
    · obtain ⟨henv, hprogress⟩ := includeScript_of_absent hpresent
      rw [henv] at h
      rw [hprogress, List.append_assoc] at hloads
      exact ⟨_, hloads, h.cons hpresent⟩

/-- Linking a stylesheet leaves the scripts and their loads as they are. -/
theorem exists_linkStylesheets (location : String) (rs : List Reference)
    (s : Environment × Report) :
    ∃ hrefs, (rs.foldl (linkStylesheet location) s).1 =
      { s.1 with stylesheets := s.1.stylesheets ++ hrefs } := by
  induction rs generalizing s with
  | nil => exact ⟨[], by simp⟩
  | cons r rs ih =>
    rw [List.foldl_cons]
    obtain ⟨hrefs, h⟩ := ih (linkStylesheet location s r)
    rw [h, linkStylesheet]
    split
    · exact ⟨hrefs, rfl⟩
    · exact ⟨Location.resolve location r.src :: hrefs, by simp [Environment.insertStylesheet]⟩

theorem Inserted.of_linked {location : String} {rs : List Reference} {env linked env' : Environment}
    {loads : List ScriptLoad} {hrefs : List String}
    (hlinked : linked = { env with stylesheets := hrefs })
    (h : Inserted location rs linked env' loads) : Inserted location rs env env' loads := by
  subst hlinked
  exact ⟨h.references, h.first, h.absent, h.distinct, h.listed, h.unknown, h.numbers, h.begun⟩

/-- The scripts that a document inserts, and their loads. -/
theorem inserted_install (location : String) (document : Document) (registry : Registry)
    (env : Environment) :
    Inserted location document.scripts env (install location document registry env).2.1
      (install location document registry env).2.2.loads := by
  obtain ⟨hrefs, hlinked⟩ := exists_linkStylesheets location document.stylesheets
    (env, { snippets := document.registeredNames })
  obtain ⟨loads, hloads, h⟩ := exists_inserted_includeScripts location document.scripts
    ((document.stylesheets.foldl (linkStylesheet location)
        (env, { snippets := document.registeredNames })).1,
      ⟨(document.stylesheets.foldl (linkStylesheet location)
        (env, { snippets := document.registeredNames })).2, []⟩)
  have hinstalled : (install location document registry env).2.2.loads = loads := hloads
  rw [hinstalled]
  exact h.of_linked hlinked

namespace Inserted

variable {location : String} {rs : List Reference} {env env' : Environment}
  {loads : List ScriptLoad}

theorem nodup_numbers (h : Inserted location rs env env' loads) :
    (loads.map ScriptLoad.load).Nodup := by
  rw [h.numbers]
  exact List.nodup_range'

theorem length_le (h : Inserted location rs env env' loads) {l : ScriptLoad} (hl : l ∈ loads) :
    env.loads.length ≤ l.load := by
  have hmem : l.load ∈ loads.map ScriptLoad.load := List.mem_map_of_mem hl
  rw [h.numbers, List.mem_range'_1] at hmem
  exact hmem.1

/-- The load that begins with an inserted script. -/
theorem getElem?_loads (h : Inserted location rs env env' loads) {l : ScriptLoad}
    (hl : l ∈ loads) : env'.loads[l.load]? = some (env.newLoad l.src) := by
  obtain ⟨k, hk⟩ := List.getElem?_of_mem hl
  have hload : (loads.map ScriptLoad.load)[k]? = some l.load := by
    rw [List.getElem?_map, hk, Option.map_some]
  have hlt : k < loads.length := (List.getElem?_eq_some_iff.mp hk).1
  rw [h.numbers, List.getElem?_range' hlt, Option.some_inj] at hload
  rw [h.begun, ← hload, List.getElem?_append_right (by omega), List.getElem?_map]
  simp [hk]

theorem lt_length (h : Inserted location rs env env' loads) {l : ScriptLoad} (hl : l ∈ loads) :
    l.load < env'.loads.length :=
  (List.getElem?_eq_some_iff.mp (h.getElem?_loads hl)).1

end Inserted

/-! ### Looking at loads -/

variable {κ : Type}

/-- What an import knows of a load once it has seen the page. -/
def seen (env : Environment) (l : ScriptLoad) : ScriptLoad :=
  { l with result := env.resultOf? l.load }

/-- Whether a look at a load takes its result. -/
def takes (env : Environment) (l : ScriptLoad) : Bool :=
  l.result.isNone && (env.resultOf? l.load).isSome

/-- What a look at a load gives notice of. -/
def news (owner : Option (Owner κ)) (env : Environment) (l : ScriptLoad) : List (Notice κ) :=
  if takes env l then (env.resultOf? l.load).elim [] (settled owner l) else []

/-- Whether a load is held by an import: what the import knows of it is what it came to, and as long
as the import knows nothing the result is there to be taken. -/
def Held (env : Environment) (l : ScriptLoad) : Prop :=
  ∃ e, env.loads[l.load]? = some e ∧ (∀ r, l.result = some r → e.result = some r) ∧
    (l.result = none → e.released = false)

/-- A load that is given up has come to the same as before. -/
theorem seen_forget (env : Environment) (load : Nat) : seen (env.forget load) = seen env := by
  funext l
  simp [seen]

@[simp] theorem takes_forget (env : Environment) (load : Nat) :
    takes (env.forget load) = takes env := by
  funext l
  simp [takes]

theorem news_forget (owner : Option (Owner κ)) (env : Environment) (load : Nat) :
    news owner (env.forget load) = news owner env := by
  funext l
  simp [news]

/-- A look at a load that is held finds out what the load has come to. -/
theorem pollLoad_eq (owner : Option (Owner κ)) {env : Environment} {l : ScriptLoad}
    (h : Held env l) :
    pollLoad owner env l =
      (if takes env l then env.forget l.load else env, seen env l, news owner env l) := by
  obtain ⟨e, he, hknown, hreleased⟩ := h
  have hresult : env.resultOf? l.load = e.result := by
    rw [Environment.resultOf?, he, Option.bind_some]
  obtain ⟨src, hook, load, result⟩ := l
  cases result with
  | some r =>
    have her : e.result = some r := hknown r rfl
    simp [pollLoad, takes, news, seen, hresult, her]
  | none =>
    have her : e.released = false := hreleased rfl
    cases hr : e.result with
    | none => simp_all [pollLoad, Environment.poll, takes, news, seen]
    | some r => simp_all [pollLoad, Environment.poll, takes, news, seen]

/-- A look at another load leaves a load held. -/
theorem Held.forget {env : Environment} {l : ScriptLoad} (h : Held env l) {load : Nat}
    (hload : l.load ≠ load) : Held (env.forget load) l := by
  obtain ⟨e, he, hknown, hreleased⟩ := h
  refine ⟨e, ?_, hknown, hreleased⟩
  rw [Environment.getElem?_loads_forget, if_neg (Ne.symm hload), he]

/-- The numbers of the loads whose results a poll takes. -/
def taken (env : Environment) (ls : List ScriptLoad) : List Nat :=
  (ls.filter (takes env)).map ScriptLoad.load

theorem pollLoads_cons (owner : Option (Owner κ)) (env : Environment) (l : ScriptLoad)
    (ls : List ScriptLoad) :
    pollLoads owner env (l :: ls) =
      ((pollLoads owner (pollLoad owner env l).1 ls).1,
        (pollLoad owner env l).2 :: (pollLoads owner (pollLoad owner env l).1 ls).2) := rfl

/-- A poll finds out what every load that is held has come to. -/
theorem pollLoads_eq (owner : Option (Owner κ)) (env : Environment) {ls : List ScriptLoad}
    (h : ∀ l ∈ ls, Held env l) (hnodup : (ls.map ScriptLoad.load).Nodup) :
    pollLoads owner env ls =
      (env.forgetAll (taken env ls), ls.map fun l => (seen env l, news owner env l)) := by
  induction ls generalizing env with
  | nil => rfl
  | cons l ls ih =>
    rw [List.map_cons, List.nodup_cons] at hnodup
    rw [pollLoads_cons, pollLoad_eq owner (h l (by simp))]
    by_cases ht : takes env l = true
    · -- the result is taken, and the other loads are still held as their numbers differ
      have hheld : ∀ m ∈ ls, Held (env.forget l.load) m := by
        intro m hm
        refine (h m (by simp [hm])).forget fun heq => hnodup.1 ?_
        exact heq ▸ List.mem_map_of_mem hm
      simp only [if_pos ht]
      rw [ih (env.forget l.load) hheld hnodup.2, seen_forget, news_forget]
      simp [taken, ht, Environment.forgetAll]
    · simp only [if_neg ht]
      rw [ih env (fun m hm => h m (by simp [hm])) hnodup.2]
      simp [taken, ht]

theorem poll_cases (env : Environment) (n : Nat) :
    (∃ r, env.poll n = (env.forget n, .settled r)) ∨ env.poll n = (env, .pending) ∨
      env.poll n = (env, .released) := by
  rw [Environment.poll]
  split
  · exact .inr (.inr rfl)
  · split
    · exact .inr (.inr rfl)
    · split
      · exact .inr (.inl rfl)
      · exact .inl ⟨_, rfl⟩

theorem pollLoad_cases (owner : Option (Owner κ)) (env : Environment) (l : ScriptLoad) :
    (pollLoad owner env l).2.1.load = l.load ∧
      ((pollLoad owner env l).1 = env ∨ (pollLoad owner env l).1 = env.forget l.load) := by
  rw [pollLoad]
  cases l.result with
  | some r => exact ⟨rfl, .inl rfl⟩
  | none =>
    rcases poll_cases env l.load with ⟨r, h⟩ | h | h
    · simp [h]
    · simp [h]
    · simp [h]

/-- A poll forgets none but loads of its import, and these stay its loads. -/
theorem exists_forgetAll_pollLoads (owner : Option (Owner κ)) (env : Environment)
    (ls : List ScriptLoad) :
    ∃ ns, (∀ n ∈ ns, n ∈ ls.map ScriptLoad.load) ∧ (pollLoads owner env ls).1 = env.forgetAll ns ∧
      (pollLoads owner env ls).2.map (fun look => look.1.load) = ls.map ScriptLoad.load := by
  induction ls generalizing env with
  | nil => exact ⟨[], by simp, rfl, rfl⟩
  | cons l ls ih =>
    obtain ⟨ns, hns, henv, hloads⟩ := ih (pollLoad owner env l).1
    obtain ⟨hload, hcase⟩ := pollLoad_cases owner env l
    have hnumbers : (pollLoads owner env (l :: ls)).2.map (fun look => look.1.load) =
        (l :: ls).map ScriptLoad.load := by
      rw [pollLoads_cons, List.map_cons, List.map_cons, hloads, hload]
    rcases hcase with hsame | hforget
    · refine ⟨ns, fun n hn => List.mem_cons_of_mem _ (hns n hn), ?_, hnumbers⟩
      rw [pollLoads_cons, henv, hsame]
    · refine ⟨l.load :: ns, ?_, ?_, hnumbers⟩
      · intro n hn
        rcases List.mem_cons.mp hn with rfl | hn
        · exact List.mem_cons_self
        · exact List.mem_cons_of_mem _ (hns n hn)
      · rw [pollLoads_cons, henv, hforget]
        rfl

/-! ### The order of looks -/

/-- Among looks with distinct numbers there is one with a number, or none. -/
theorem find?_eq_some_iff_of_nodup {α : Type} {load : α → Nat} {looks : List α}
    (hlooks : (looks.map load).Nodup) {n : Nat} {look : α} :
    looks.find? (fun look => load look == n) = some look ↔ look ∈ looks ∧ load look = n := by
  constructor
  · intro h
    exact ⟨List.mem_of_find?_eq_some h, by simpa using List.find?_some h⟩
  · rintro ⟨hmem, hload⟩
    cases h : looks.find? (fun look => load look == n) with
    | none => exact absurd hload (by simpa using List.find?_eq_none.mp h look hmem)
    | some other =>
      have hother : load other = n := by simpa using List.find?_some h
      rw [List.inj_on_of_nodup_map hlooks (List.mem_of_find?_eq_some h) hmem
        (hother.trans hload.symm)]

/-- Whatever the order of the looks is, each load has one of them. -/
theorem perm_arrange {α : Type} {load : α → Nat} (env : Environment) {looks : List α}
    (henv : env.completed.Nodup) (hlooks : (looks.map load).Nodup) :
    (arrange load env looks).Perm looks := by
  rw [arrange]
  split
  · exact .refl looks
  · have hlate : (env.completed.filterMap fun n => looks.find? fun look => load look == n).Perm
        (looks.filter fun look => env.completed.contains (load look)) := by
      rw [List.perm_ext_iff_of_nodup]
      · intro look
        simp only [List.mem_filterMap, find?_eq_some_iff_of_nodup hlooks, List.mem_filter,
          List.contains_iff_mem]
        constructor
        · rintro ⟨n, hn, hmem, rfl⟩
          exact ⟨hmem, hn⟩
        · rintro ⟨hmem, hn⟩
          exact ⟨load look, hn, hmem, rfl⟩
      · refine List.Nodup.filterMap ?_ henv
        intro n m look hn hm
        rw [← (find?_eq_some_iff_of_nodup hlooks).mp hn |>.2,
          (find?_eq_some_iff_of_nodup hlooks).mp hm |>.2]
      · exact (hlooks.of_map load).filter _
    refine ((List.Perm.refl _).append hlate).trans ?_
    exact List.perm_append_comm.trans (List.filter_append_perm _ looks)

theorem arrange_map {α β : Type} (load : β → Nat) (g : α → β) (env : Environment)
    (looks : List α) :
    arrange load env (looks.map g) = (arrange (fun a => load (g a)) env looks).map g := by
  rw [arrange, arrange, List.length_map]
  split
  · rfl
  · simp [List.filter_map, List.find?_map, List.map_filterMap, Function.comp_def]

/-! ### Polls -/

/-- A poll leaves the environment as its looks at the loads do. -/
theorem environment_poll (owner : Option (Owner κ)) (env : Environment) (p : Progress) :
    (poll owner env p).environment = (pollLoads owner env p.loads).1 := by
  simp only [poll]
  split <;> rfl

/-- An import that goes on waiting knows what its looks at the loads showed. -/
theorem loads_of_poll_eq_waiting {owner : Option (Owner κ)} {env : Environment} {p q : Progress}
    (h : (poll owner env p).status = .waiting q) :
    q.loads = (pollLoads owner env p.loads).2.map Prod.fst := by
  simp only [poll] at h
  split at h
  · injection h with h
    rw [← h]
  · cases h

/-- The results of loads as far as there are any, in their order. -/
def resultsIn (env : Environment) (ls : List ScriptLoad) : List (String × LoadResult) :=
  ls.filterMap fun l => (env.resultOf? l.load).map fun result => (l.src, result)

theorem results?_cons (l : ScriptLoad) (ls : List ScriptLoad) :
    results? (l :: ls) =
      (l.result.map fun result => (l.src, result)).bind fun r => (results? ls).map (r :: ·) := by
  cases hl : l.result with
  | none => simp [results?, List.mapM_cons, hl]
  | some r =>
    cases hls : results? ls with
    | none => simp_all [results?, List.mapM_cons]
    | some rs => simp_all [results?, List.mapM_cons]

theorem results?_seen_of_pending {env : Environment} {ls : List ScriptLoad}
    (h : ∃ l ∈ ls, env.resultOf? l.load = none) : results? (ls.map (seen env)) = none := by
  induction ls with
  | nil => simp at h
  | cons l ls ih =>
    rw [List.map_cons, results?_cons, seen]
    cases hl : env.resultOf? l.load with
    | none => rfl
    | some r =>
      obtain ⟨m, hm, hnone⟩ := h
      rcases List.mem_cons.mp hm with rfl | hm
      · rw [hl] at hnone
        cases hnone
      · rw [ih ⟨m, hm, hnone⟩]
        rfl

theorem results?_seen_of_settled {env : Environment} {ls : List ScriptLoad}
    (h : ∀ l ∈ ls, (env.resultOf? l.load).isSome) :
    results? (ls.map (seen env)) = some (resultsIn env ls) := by
  induction ls with
  | nil => rfl
  | cons l ls ih =>
    obtain ⟨r, hr⟩ := Option.isSome_iff_exists.mp (h l (by simp))
    rw [List.map_cons, results?_cons, seen, ih fun m hm => h m (by simp [hm]), resultsIn, resultsIn,
      List.filterMap_cons, hr]
    rfl

section

variable {env : Environment} {p : Progress} (hheld : ∀ l ∈ p.loads, Held env l)
  (hnodup : (p.loads.map ScriptLoad.load).Nodup)

include hheld hnodup

/-- A poll while a load waits. -/
theorem poll_of_pending (owner : Option (Owner κ))
    (h : ∃ l ∈ p.loads, env.resultOf? l.load = none) :
    poll owner env p =
      ⟨env.forgetAll (taken env p.loads), .waiting { p with loads := p.loads.map (seen env) },
        (arrange ScriptLoad.load env p.loads).flatMap (news owner env)⟩ := by
  have hresults : results? (p.loads.map (seen env)) = none := results?_seen_of_pending h
  rw [poll, pollLoads_eq owner env hheld hnodup]
  simp only [List.map_map, Function.comp_def, arrange_map, List.flatMap_map]
  rw [hresults]
  rfl

/-- A poll when all loads have settled. -/
theorem poll_of_settled (owner : Option (Owner κ))
    (h : ∀ l ∈ p.loads, (env.resultOf? l.load).isSome) :
    poll owner env p =
      ⟨env.forgetAll (taken env p.loads),
        .finished { p.report with
          scriptsLoaded := loadedOf (resultsIn env p.loads)
          scriptsFailed := failedOf (resultsIn env p.loads) },
        (arrange ScriptLoad.load env p.loads).flatMap (news owner env)
          ++ (failureWarnings (resultsIn env p.loads)).map .warning⟩ := by
  have hresults := results?_seen_of_settled h
  rw [poll, pollLoads_eq owner env hheld hnodup]
  simp only [List.map_map, Function.comp_def, arrange_map, List.flatMap_map]
  rw [hresults]
  rfl

end

end Transclude.Import
