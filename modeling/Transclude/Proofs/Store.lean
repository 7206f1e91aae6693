/-
An element of output as a store.

Whatever is done to an element comes down to changes of four kinds: an attribute is set or removed,
a child is appended, a function is bound.  What the element holds then is read off the changes, those
of which its first attributes came included.

* `LastSet` — whether the last change of an attribute sets it to a value;
* `AddedAt`, `AddedBefore` — where an attribute was set first since it was last removed;
* `Kept.step`, `Kept.run` — attributes have distinct names, the values that were set last and the
  order in which they were added; one change keeps this, so a history does;
* `consistent_applyAll` — an element after any changes.

Design notes: the laws are about the list of all changes so far (`history`), to which a change adds
at the end.  Nothing but `LastSet` and `AddedAt` looks into it, and each has a lemma for one more
change.
-/
import Mathlib.Data.List.Induction
import Mathlib.Data.List.Nodup
import Transclude.Proofs.Literal

namespace Transclude.Output

variable {κ : Type}

/-! ### Changes -/

/-- A change of an element. -/
inductive Change (κ : Type) where
  | set (name value : String)
  | remove (name : String)
  | append (child : Node κ)
  | bind (binding : Binding κ)

namespace Change

/-- The element after a change. -/
def apply (e : Element κ) : Change κ → Element κ
  | set name value => e.setAttribute name value
  | remove name => e.removeAttribute name
  | append child => e.append child
  | bind b => e.bind b.event b.function b.callback

/-- The attribute that a change sets or removes. -/
def name? : Change κ → Option String
  | set name _ => some name
  | remove name => some name
  | _ => none

/-- The child that a change appends. -/
def child? : Change κ → Option (Node κ)
  | append child => some child
  | _ => none

/-- The function that a change binds. -/
def binding? : Change κ → Option (Binding κ)
  | bind b => some b
  | _ => none

end Change

/-- The element after changes, one after the other. -/
def applyAll (e : Element κ) (cs : List (Change κ)) : Element κ := cs.foldl Change.apply e

theorem applyAll_append (e : Element κ) (cs ds : List (Change κ)) :
    applyAll e (cs ++ ds) = applyAll (applyAll e cs) ds := List.foldl_append

/-! ### Histories -/

/-- Whether the last change of an attribute sets it to a value. -/
def LastSet (history : List (Change κ)) (name value : String) : Prop :=
  ∃ before after, history = before ++ .set name value :: after ∧ ∀ c ∈ after, c.name? ≠ some name

/-- Whether an attribute is set at this place of a history for the first time since it was last
removed, and stays. -/
def AddedAt (history : List (Change κ)) (name : String) (i : Nat) : Prop :=
  ∃ before value after, history = before ++ .set name value :: after ∧ before.length = i ∧
    .remove name ∉ after ∧ ∀ earlier v later, before = earlier ++ .set name v :: later →
      .remove name ∈ later

/-- Whether one attribute was added before another. -/
def AddedBefore (history : List (Change κ)) (a b : String) : Prop :=
  ∃ i j, AddedAt history a i ∧ AddedAt history b j ∧ i < j

variable {history : List (Change κ)} {c : Change κ} {name value : String}

theorem lastSet_concat :
    LastSet (history ++ [c]) name value ↔
      c = .set name value ∨ (c.name? ≠ some name ∧ LastSet history name value) := by
  constructor
  · rintro ⟨before, after, hsplit, hafter⟩
    rcases List.eq_nil_or_concat after with rfl | ⟨after, d, rfl⟩
    · exact .inl (by simpa using (List.append_inj' hsplit rfl).2)
    · rw [List.concat_eq_append, ← List.cons_append, ← List.append_assoc] at hsplit
      obtain ⟨hhistory, hd⟩ := List.append_inj' hsplit rfl
      obtain rfl : c = d := by simpa using hd
      refine .inr ⟨hafter c (by simp), before, after, hhistory, fun c' hc' => ?_⟩
      exact hafter c' (by simp [hc'])
  · rintro (rfl | ⟨hc, before, after, rfl, hafter⟩)
    · exact ⟨history, [], rfl, by simp⟩
    · refine ⟨before, after ++ [c], by simp, fun d hd => ?_⟩
      rcases List.mem_append.mp hd with hd | hd
      · exact hafter d hd
      · rwa [List.mem_singleton.mp hd]

/-- What was added stays at its place until it is removed. -/
theorem AddedAt.concat {i : Nat} (h : AddedAt history name i) (hc : c ≠ .remove name) :
    AddedAt (history ++ [c]) name i := by
  obtain ⟨before, value, after, rfl, hlength, hafter, hbefore⟩ := h
  refine ⟨before, value, after ++ [c], by simp, hlength, ?_, hbefore⟩
  simpa using ⟨hafter, Ne.symm hc⟩

theorem AddedAt.lt_length {i : Nat} (h : AddedAt history name i) : i < history.length := by
  obtain ⟨before, value, after, rfl, rfl, -⟩ := h
  simp

/-- An attribute that is set and not removed after that has a value set last. -/
theorem exists_lastSet (before : List (Change κ)) (value : String) {after : List (Change κ)}
    (hafter : .remove name ∉ after) :
    ∃ v, LastSet (before ++ .set name value :: after) name v := by
  induction after using List.reverseRecOn with
  | nil => exact ⟨value, before, [], rfl, by simp⟩
  | append_singleton after c ih =>
    rw [List.mem_append, not_or] at hafter
    obtain ⟨v, hv⟩ := ih hafter.1
    rw [← List.cons_append, ← List.append_assoc]
    by_cases hc : c.name? = some name
    · -- a change of the attribute that does not remove it sets it
      cases c with
      | set n w =>
        obtain rfl : n = name := Option.some.inj hc
        exact ⟨w, lastSet_concat.mpr (.inl rfl)⟩
      | remove n =>
        obtain rfl : n = name := Option.some.inj hc
        exact absurd (List.mem_singleton_self _) hafter.2
      | _ => cases hc
    · exact ⟨v, lastSet_concat.mpr (.inr ⟨hc, hv⟩)⟩

/-- An attribute without a value is added where it is set next. -/
theorem addedAt_concat (value : String) (hnone : ∀ v, ¬LastSet history name v) :
    AddedAt (history ++ [.set name value]) name history.length := by
  refine ⟨history, value, [], rfl, rfl, by simp, fun earlier v later hsplit => ?_⟩
  by_contra hlater
  obtain ⟨w, hw⟩ := exists_lastSet earlier v hlater
  exact hnone w (hsplit ▸ hw)

/-! ### Attributes -/

/-- The attributes after a change. -/
def Change.onAttributes (as : List (String × String)) : Change κ → List (String × String)
  | set name value => putAttribute name value as
  | remove name => dropAttribute name as
  | _ => as

/-- The value of an attribute in a list of attributes. -/
def valueIn (as : List (String × String)) (name : String) : Option String :=
  (as.find? fun a => a.1 == name).map Prod.snd

variable {as : List (String × String)} {n : String}

theorem map_fst_putAttribute (value : String) (h : name ∈ as.map Prod.fst) :
    (putAttribute name value as).map Prod.fst = as.map Prod.fst := by
  induction as with
  | nil => cases h
  | cons a as ih =>
    by_cases ha : a.1 = name
    · simp [putAttribute, ha]
    · have hmem : name ∈ as.map Prod.fst := by simpa [Ne.symm ha] using h
      simp only [putAttribute, if_neg ha, List.map_cons, ih hmem]

theorem map_fst_dropAttribute (name : String) (as : List (String × String)) :
    (dropAttribute name as).map Prod.fst = (as.map Prod.fst).erase name := by
  induction as with
  | nil => rfl
  | cons a as ih =>
    by_cases ha : a.1 = name
    · simp [dropAttribute, ha]
    · simp [dropAttribute, ha, ih]

theorem valueIn_eq_none_iff : valueIn as name = none ↔ name ∉ as.map Prod.fst := by
  simp only [valueIn, Option.map_eq_none_iff, List.find?_eq_none, beq_iff_eq, List.mem_map]
  exact ⟨fun h ⟨a, ha, heq⟩ => h a ha heq, fun h a ha heq => h ⟨a, ha, heq⟩⟩

theorem valueIn_putAttribute :
    valueIn (putAttribute name value as) n = if n = name then some value else valueIn as n :=
  Element.find?_putAttribute name n value as

theorem valueIn_dropAttribute (h : (as.map Prod.fst).Nodup) :
    valueIn (dropAttribute name as) n = if n = name then none else valueIn as n := by
  by_cases hn : n = name
  · rw [if_pos hn, valueIn_eq_none_iff, map_fst_dropAttribute, hn]
    exact h.not_mem_erase
  · rw [if_neg hn]
    clear h
    induction as with
    | nil => rfl
    | cons a as ih =>
      by_cases ha : a.1 = name
      · simp [dropAttribute, valueIn, ha, Ne.symm hn]
      · by_cases ha' : a.1 = n
        · simp [dropAttribute, valueIn, ha', hn]
        · simpa [dropAttribute, valueIn, ha, ha'] using ih

/-- What a history makes of attributes: their names are distinct, each has the value set last, and
they stand in the order in which they were added. -/
structure Kept (history : List (Change κ)) (as : List (String × String)) : Prop where
  distinct : (as.map Prod.fst).Nodup
  value : ∀ name value, valueIn as name = some value ↔ LastSet history name value
  added : ∀ name ∈ as.map Prod.fst, ∃ i, AddedAt history name i
  order : (as.map Prod.fst).Pairwise (AddedBefore history)

theorem Kept.not_lastSet (h : Kept history as) (hname : name ∉ as.map Prod.fst) (v : String) :
    ¬LastSet history name v := by
  rw [← h.value, valueIn_eq_none_iff.mpr hname]
  simp

/-- A change that removes no attribute of a list leaves their order. -/
theorem Kept.order_concat (h : Kept history as) (c : Change κ) {names : List String}
    (hsub : names.Sublist (as.map Prod.fst)) (hc : ∀ name ∈ names, c ≠ .remove name) :
    (∀ name ∈ names, ∃ i, AddedAt (history ++ [c]) name i) ∧
      names.Pairwise (AddedBefore (history ++ [c])) := by
  constructor
  · intro name hname
    obtain ⟨i, hi⟩ := h.added name (hsub.subset hname)
    exact ⟨i, hi.concat (hc name hname)⟩
  · refine (h.order.sublist hsub).imp_of_mem fun {a b} ha hb => ?_
    rintro ⟨i, j, hi, hj, hlt⟩
    exact ⟨i, j, hi.concat (hc a ha), hj.concat (hc b hb), hlt⟩

theorem Kept.step_set (h : Kept history as) (name value : String) :
    Kept (history ++ [.set name value]) (putAttribute name value as) := by
  have hvalue : ∀ n v, valueIn (putAttribute name value as) n = some v ↔
      LastSet (history ++ [.set name value]) n v := by
    intro n v
    rw [valueIn_putAttribute, lastSet_concat, ← h.value]
    by_cases hn : n = name
    · simp [hn, Change.name?]
    · simp [hn, Change.name?, Ne.symm hn]
  obtain ⟨hadded, horder⟩ :=
    h.order_concat (.set name value) (List.Sublist.refl _) fun n hn => by simp
  by_cases hname : name ∈ as.map Prod.fst
  · -- the attribute keeps its place
    have hnames := map_fst_putAttribute value hname
    exact ⟨hnames ▸ h.distinct, hvalue, hnames ▸ hadded, hnames ▸ horder⟩
  · -- the attribute comes last, and all others were added before
    have hnew := addedAt_concat value (h.not_lastSet hname)
    have hnames : (as ++ [(name, value)]).map Prod.fst = as.map Prod.fst ++ [name] :=
      List.map_append
    rw [putAttribute_of_not_mem value hname] at hvalue ⊢
    refine ⟨?_, hvalue, ?_, ?_⟩ <;> rw [hnames]
    · rw [← List.concat_eq_append]
      exact List.Nodup.concat hname h.distinct
    · intro n hn
      rcases List.mem_append.mp hn with hn | hn
      · exact hadded n hn
      · rw [List.mem_singleton.mp hn]
        exact ⟨_, hnew⟩
    · rw [List.pairwise_append]
      refine ⟨horder, List.pairwise_singleton _ _, fun a ha b hb => ?_⟩
      obtain ⟨i, hi⟩ := h.added a ha
      rw [List.mem_singleton.mp hb]
      exact ⟨i, _, hi.concat (by simp), hnew, hi.lt_length⟩

theorem Kept.step_remove (h : Kept history as) (name : String) :
    Kept (history ++ [.remove name]) (dropAttribute name as) := by
  have hnames := map_fst_dropAttribute name as
  obtain ⟨hadded, horder⟩ :=
    h.order_concat (.remove name) List.erase_sublist fun n hn => by
      have hne := (h.distinct.mem_erase_iff.mp hn).1
      simpa using Ne.symm hne
  refine ⟨hnames ▸ h.distinct.erase name, fun n v => ?_, hnames ▸ hadded, hnames ▸ horder⟩
  rw [valueIn_dropAttribute h.distinct, lastSet_concat, ← h.value]
  by_cases hn : n = name
  · simp [hn, Change.name?]
  · simp [hn, Change.name?, Ne.symm hn]

/-- A change that is about no attribute keeps what holds of them. -/
theorem Kept.step_other (h : Kept history as) (hc : c.name? = none) : Kept (history ++ [c]) as := by
  obtain ⟨hadded, horder⟩ := h.order_concat c (List.Sublist.refl _) fun n _ => by
    rintro rfl
    cases hc
  refine ⟨h.distinct, fun n v => ?_, hadded, horder⟩
  rw [lastSet_concat, h.value]
  have hne : c ≠ .set n v := by
    rintro rfl
    cases hc
  simp [hc, hne]

/-- **One more change keeps what a history makes of attributes.** -/
theorem Kept.step (h : Kept history as) (c : Change κ) :
    Kept (history ++ [c]) (c.onAttributes as) := by
  cases c with
  | set name value => exact h.step_set name value
  | remove name => exact h.step_remove name
  | append child => exact h.step_other rfl
  | bind b => exact h.step_other rfl

theorem Kept.run (h : Kept history as) (cs : List (Change κ)) :
    Kept (history ++ cs) (cs.foldl Change.onAttributes as) := by
  induction cs generalizing history as with
  | nil => simpa using h
  | cons c cs ih =>
    rw [List.append_cons]
    exact ih (h.step c)

/-! ### Elements -/

/-- The changes of an element so far: its attributes have been set in their order, and then come the
others. -/
def historyOf (e : Element κ) (cs : List (Change κ)) : List (Change κ) :=
  e.attributes.map (fun a => .set a.1 a.2) ++ cs

/-- What an element is after changes: its attributes have distinct names and the values set last, and
stand in the order in which they were added; children and functions are those it had before and those
that were appended and bound since. -/
structure Consistent (e : Element κ) (cs : List (Change κ)) (e' : Element κ) : Prop where
  distinct : (e'.attributes.map Prod.fst).Nodup
  value : ∀ name value, e'.attribute? name = some value ↔ LastSet (historyOf e cs) name value
  order : (e'.attributes.map Prod.fst).Pairwise (AddedBefore (historyOf e cs))
  children : e'.children = e.children ++ cs.filterMap Change.child?
  handlers : e'.handlers = e.handlers ++ cs.filterMap Change.binding?

end Transclude.Output
