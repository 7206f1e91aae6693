/-
The places that paths lead to.

A path is walked segment by segment: an empty segment and `.` stay, `..` goes to the parent, and any
other segment goes down.  Collapsing keeps the place, except in two cases.  The pass takes `.` for a
name, so a parent segment may be lost to it; and what is left of a relative path may begin with an
empty segment, which makes it a path from the root.

* `placeOf` — the place that a path leads to from a working directory;
* `CancelsCurrent`, `Uproots` — the two cases, in terms of the segments that cancel each other;
* `placeOf_collapsePath` — apart from them a collapsed path leads to the same place;
* `level_lt_collapse` — a parent segment lost to `.` leaves the path a level too deep;
* `resolve_same_place` — a resolved reference leads where the joined path does, or it is one of the
  two cases and does not.

Design notes: how deep a walk ends is counted by `level`, which knows no root.  The walk is at least
as deep, and as deep as that if it never goes up from the root.
-/
import Mathlib.Algebra.Ring.Int.Defs
import Transclude.Proofs.Removal

namespace Transclude.Location

open Relation (ReflTransGen)

/-! ### Walking -/

/-- A place, by the names that lead down to it from the root, the last one first. -/
abbrev Place := List (List Char)

/-- The segment that stays where it is. -/
def current : List Char := ['.']

/-- The place one segment further.  The parent of the root is the root. -/
def step (place : Place) (segment : List Char) : Place :=
  if segment = [] ∨ segment = current then place
  else if segment = parent then place.tail
  else segment :: place

/-- The place after some segments. -/
def walk (place : Place) (segments : List (List Char)) : Place := segments.foldl step place

/-- Whether a path starts at the root. -/
def isAbsolute (path : List Char) : Bool := path.head? == some '/'

/-- The place that a path leads to from a working directory. -/
def placeOf (working : Place) (path : List Char) : Place :=
  walk (if isAbsolute path then [] else working) (Text.split '/' path)

variable {place : Place} {k s : List Char} {path : List Char}
  {segments segments' rest xs ys : List (List Char)}

theorem walk_append (place : Place) (xs ys : List (List Char)) :
    walk place (xs ++ ys) = walk (walk place xs) ys := List.foldl_append

theorem walk_cons (place : Place) (s : List Char) (rest : List (List Char)) :
    walk place (s :: rest) = walk (step place s) rest := rfl

theorem step_of_name (hk : k ≠ [] ∧ k ≠ parent) (hcurrent : k ≠ current) (place : Place) :
    step place k = k :: place := by
  rw [step, if_neg (by simp [hk.1, hcurrent]), if_neg hk.2]

theorem step_parent (place : Place) : step place parent = place.tail := rfl

/-- Going down and up again leads back. -/
theorem walk_pair (hk : k ≠ [] ∧ k ≠ parent) (hcurrent : k ≠ current) (place : Place)
    (xs rest : List (List Char)) :
    walk place (xs ++ k :: parent :: rest) = walk place (xs ++ rest) := by
  rw [walk_append, walk_append, walk_cons, walk_cons, step_of_name hk hcurrent, step_parent,
    List.tail_cons]

/-! ### Depth -/

/-- How much deeper a segment leads, if the root is not in the way. -/
def rise (segment : List Char) : Int :=
  if segment = [] ∨ segment = current then 0 else if segment = parent then -1 else 1

/-- How much deeper some segments lead. -/
def level (segments : List (List Char)) : Int := (segments.map rise).sum

theorem level_nil : level [] = 0 := rfl

theorem level_cons (s : List Char) (rest : List (List Char)) :
    level (s :: rest) = rise s + level rest := by
  simp [level]

theorem level_append (xs ys : List (List Char)) : level (xs ++ ys) = level xs + level ys := by
  induction xs with
  | nil => simp [level_nil]
  | cons x xs ih => rw [List.cons_append, level_cons, level_cons, ih, Int.add_assoc]

theorem rise_bounds (s : List Char) : -1 ≤ rise s ∧ rise s ≤ 1 := by
  unfold rise
  split
  · omega
  · split <;> omega

theorem neg_length_le_level (segments : List (List Char)) :
    -(segments.length : Int) ≤ level segments := by
  induction segments with
  | nil => simp [level_nil]
  | cons s rest ih =>
    have hs := (rise_bounds s).1
    rw [level_cons, List.length_cons]
    omega

/-- A step leads as deep as its segment does; only at the root a parent segment leads deeper. -/
theorem length_step (place : Place) (s : List Char) :
    (place.length : Int) + rise s ≤ (step place s).length ∧
      ((s = parent → place ≠ []) → ((step place s).length : Int) = place.length + rise s) := by
  unfold step rise
  split
  · omega
  split
  · rename_i hs
    cases place with
    | nil => simp [hs]
    | cons d ds =>
      simp only [List.tail_cons, List.length_cons]
      omega
  · simp

theorem add_level_le (place : Place) (segments : List (List Char)) :
    (place.length : Int) + level segments ≤ (walk place segments).length := by
  induction segments generalizing place with
  | nil => simp [level_nil, walk]
  | cons s rest ih =>
    have hs := (length_step place s).1
    have hrest := ih (step place s)
    rw [level_cons, walk_cons]
    omega

/-- Whether a walk never goes up from the root. -/
def StaysInside (place : Place) (segments : List (List Char)) : Prop :=
  ∀ xs ys, segments = xs ++ parent :: ys → walk place xs ≠ []

theorem length_walk (h : StaysInside place segments) :
    ((walk place segments).length : Int) = place.length + level segments := by
  induction segments generalizing place with
  | nil => simp [level_nil, walk]
  | cons s rest ih =>
    have hs : s = parent → place ≠ [] := fun hs => h [] rest (by rw [hs, List.nil_append])
    have hrest : StaysInside (step place s) rest := by
      rintro xs ys rfl
      exact h (s :: xs) ys rfl
    have hlength := (length_step place s).2 hs
    rw [level_cons, walk_cons, ih hrest]
    omega

/-- From a place that is deep enough a walk does not reach the root. -/
theorem staysInside_of_length_le (h : segments.length ≤ place.length) :
    StaysInside place segments := by
  rintro xs ys rfl hroot
  have hle := add_level_le place xs
  have hlevel := neg_length_le_level xs
  rw [hroot] at hle
  simp only [List.length_append, List.length_cons, List.length_nil] at h hle
  omega

/-! ### Pairs put in -/

/-- The segments with a pair put in somewhere: a segment with a name and the parent segment directly
after it. -/
inductive PutIn : List (List Char) → List (List Char) → Prop
  | pair (xs ys : List (List Char)) {k : List Char} (hk : k ≠ [] ∧ k ≠ parent) :
    PutIn (xs ++ ys) (xs ++ k :: parent :: ys)

theorem Removes.putIn (h : Removes segments segments') : PutIn segments' segments := by
  cases h with
  | pair xs hk hrest => exact .pair xs _ hk

theorem PutIn.cancels (h : PutIn xs ys) (hxs : Cancels xs) : Cancels ys := by
  cases h with
  | pair as bs hk => exact .pair hxs hk

theorem PutIn.ne_nil (h : PutIn xs ys) : ys ≠ [] := by
  cases h with
  | pair as bs hk => exact List.append_ne_nil_of_right_ne_nil as (List.cons_ne_nil _ _)

theorem PutIn.level_le (h : PutIn xs ys) : level ys ≤ level xs := by
  cases h with
  | @pair as bs k hk =>
    have hrise := (rise_bounds k).2
    rw [level_append, level_append, level_cons, level_cons, show rise parent = -1 from rfl]
    omega

/-- A pair is put in on one side of any segment. -/
theorem PutIn.append_cons (h : PutIn (xs ++ s :: ys) segments) :
    (∃ xs', PutIn xs xs' ∧ segments = xs' ++ s :: ys) ∨
      ∃ ys', PutIn ys ys' ∧ segments = xs ++ s :: ys' := by
  generalize hall : xs ++ s :: ys = all at h
  cases h with
  | @pair as bs k hk =>
    rcases List.append_eq_append_iff.mp hall with ⟨ws, rfl, hws⟩ | ⟨ws, rfl, rfl⟩
    · cases ws with
      | nil =>
        -- directly before the segment
        rw [List.nil_append] at hws
        refine .inl ⟨xs ++ k :: parent :: [], ?_, by simp [← hws]⟩
        have hpair := PutIn.pair xs [] hk
        rwa [List.append_nil] at hpair
      | cons w ws =>
        obtain ⟨rfl, rfl⟩ := List.cons.inj hws
        exact .inr ⟨ws ++ k :: parent :: bs, .pair ws bs hk, by simp⟩
    · exact .inl ⟨as ++ k :: parent :: ws, .pair as ws hk, by simp⟩

theorem level_le_of_cancels (h : Cancels xs) : level xs ≤ 0 := by
  induction h with
  | nil => exact Int.le_refl 0
  | @pair xs ys k _ hk ih => exact Int.le_trans (PutIn.pair xs ys hk).level_le ih

theorem level_le_of_removals (h : ReflTransGen Removes segments segments') :
    level segments ≤ level segments' := by
  induction h with
  | refl => exact Int.le_refl _
  | tail _ hstep ih => exact Int.le_trans ih hstep.putIn.level_le

/-- Segments that cancel each other can be taken out anywhere. -/
theorem removals_of_cancels (h : Cancels xs) (before : List (List Char)) (hrest : rest ≠ []) :
    ReflTransGen Removes (before ++ (xs ++ rest)) (before ++ rest) := by
  induction h with
  | nil => exact .refl
  | @pair xs ys k _ hk ih =>
    have hgo : ys ++ rest ≠ [] := List.append_ne_nil_of_right_ne_nil ys hrest
    have hpair := Removes.pair (before ++ xs) hk hgo
    simp only [List.append_assoc, List.cons_append] at hpair ih ⊢
    exact .head hpair ih

theorem head?_of_cancels (h : Cancels xs) : ∀ k ∈ xs.head?, k ≠ [] ∧ k ≠ parent := by
  induction h with
  | nil => simp
  | @pair xs ys k _ hk ih =>
    cases xs with
    | nil => simpa using hk
    | cons x xs => simpa using ih

/-! ### A parent segment lost to `.` -/

/-- Whether a parent segment cancels a segment `.`: all between the two cancels each other, and the
parent segment is not the last one. -/
def CancelsCurrent (segments : List (List Char)) : Prop :=
  ∃ before between after, segments = before ++ current :: (between ++ parent :: after) ∧
    Cancels between ∧ after ≠ []

theorem CancelsCurrent.mem (h : CancelsCurrent segments) : current ∈ segments := by
  obtain ⟨before, between, after, rfl, -⟩ := h
  simp

theorem PutIn.cancelsCurrent (h : PutIn segments segments') (hcurrent : CancelsCurrent segments) :
    CancelsCurrent segments' := by
  obtain ⟨before, between, after, rfl, hbetween, hafter⟩ := hcurrent
  rcases h.append_cons with ⟨before', -, rfl⟩ | ⟨rest', hrest, rfl⟩
  · exact ⟨before', between, after, rfl, hbetween, hafter⟩
  · rcases hrest.append_cons with ⟨between', hput, rfl⟩ | ⟨after', hput, rfl⟩
    · exact ⟨before, between', after, rfl, hput.cancels hbetween, hafter⟩
    · exact ⟨before, between, after', rfl, hbetween, hput.ne_nil⟩

/-- Without such a parent segment, a removal takes out a way down and back up. -/
theorem walk_of_removes (h : Removes segments segments') (hcurrent : ¬CancelsCurrent segments)
    (place : Place) : walk place segments = walk place segments' := by
  cases h with
  | @pair xs k rest hk hrest =>
    refine walk_pair hk ?_ place xs rest
    rintro rfl
    exact hcurrent ⟨xs, [], rest, rfl, .nil, hrest⟩

/-- A `.` that a later removal takes out is one that a parent segment cancels from the beginning. -/
theorem walk_of_removals (h : ReflTransGen Removes segments segments')
    (hcurrent : ¬CancelsCurrent segments) (place : Place) :
    walk place segments = walk place segments' := by
  induction h using ReflTransGen.head_induction_on with
  | refl => rfl
  | head hstep _ ih =>
    rw [walk_of_removes hstep hcurrent]
    exact ih fun hlater => hcurrent (hstep.putIn.cancelsCurrent hlater)

/-- A parent segment that is lost to a `.` leaves the segments a level too deep. -/
theorem level_lt_collapse (h : CancelsCurrent segments) :
    level segments < level (collapse segments) := by
  obtain ⟨before, between, after, rfl, hbetween, hafter⟩ := h
  have hbefore : ReflTransGen Removes (before ++ current :: (between ++ parent :: after))
      (before ++ current :: parent :: after) := by
    have h := removals_of_cancels hbetween (before ++ [current])
      (List.cons_ne_nil parent after)
    simpa using h
  have hcollapse : collapse (before ++ current :: (between ++ parent :: after)) =
      collapse (before ++ after) :=
    collapse_eq_of_removals (hbefore.tail (.pair before (by decide) hafter))
  have hle := level_le_of_removals (removes_collapse (before ++ after))
  have hlost := level_le_of_cancels hbetween
  rw [level_append] at hle
  rw [hcollapse, level_append, level_cons, level_append, level_cons, show rise current = 0 from rfl,
    show rise parent = -1 from rfl]
  omega

/-! ### A relative path that becomes absolute -/

/-- Whether all before an empty segment cancels each other, so that what is left begins with it. -/
def Uproots (segments : List (List Char)) : Prop :=
  ∃ before after, segments = before ++ [] :: after ∧ before ≠ [] ∧ Cancels before ∧ after ≠ []

theorem Uproots.mem (h : Uproots segments) : [] ∈ segments := by
  obtain ⟨before, after, rfl, -⟩ := h
  simp

theorem isAbsolute_iff :
    isAbsolute path = true ↔ ∃ rest, rest ≠ [] ∧ Text.split '/' path = [] :: rest := by
  cases path with
  | nil => simp [isAbsolute, Text.split]
  | cons c cs =>
    by_cases hc : c = '/'
    · simp [isAbsolute, Text.split, hc, Text.split_ne_nil]
    · cases hs : Text.split '/' cs with
      | nil => exact absurd hs (Text.split_ne_nil '/' cs)
      | cons s ss => simp [isAbsolute, Text.split, hc, hs]

/-- The first segment that is left has only segments before it that cancel each other. -/
theorem exists_of_removals (h : ReflTransGen Removes segments (s :: rest)) (hrest : rest ≠ []) :
    ∃ before after, segments = before ++ s :: after ∧ Cancels before ∧ after ≠ [] := by
  induction h using ReflTransGen.head_induction_on with
  | refl => exact ⟨[], rest, rfl, .nil, hrest⟩
  | head hstep _ ih =>
    obtain ⟨before, after, rfl, hbefore, hafter⟩ := ih
    rcases hstep.putIn.append_cons with ⟨before', hput, rfl⟩ | ⟨after', hput, rfl⟩
    · exact ⟨before', after, rfl, hput.cancels hbefore, hafter⟩
    · exact ⟨before, after', rfl, hbefore, hput.ne_nil⟩

/-- An empty segment with only segments before it that cancel each other is left as the first. -/
theorem collapse_of_cancels (h : Cancels xs) (hrest : rest ≠ []) :
    collapse (xs ++ [] :: rest) = [] :: collapse rest := by
  have hbase : ∀ k ∈ [([] : List Char)].head?, isNamed k = false := forall_head?_cons.mpr rfl
  have hkeep : ([] : List Char) = parent →
      ∀ k ∈ ([] : List (List Char)).head?, isNamed k = false := by
    intro hparent
    cases hparent
  rw [collapse, h.collapseFrom_append [] (List.cons_ne_nil _ _), collapseFrom_keep hkeep hrest]
  exact collapseFrom_append hbase [] rest

theorem isAbsolute_collapsePath_of_cancels (h : Cancels xs) (hrest : rest ≠ [])
    (hpath : Text.split '/' path = xs ++ [] :: rest) : isAbsolute (collapsePath path) = true :=
  isAbsolute_iff.mpr ⟨collapse rest, collapseFrom_ne_nil [] hrest, by
    rw [split_collapsePath, hpath, collapse_of_cancels h hrest]⟩

/-- A path from the root begins with an empty segment, which nothing cancels. -/
theorem not_uproots_of_isAbsolute (h : isAbsolute path = true) :
    ¬Uproots (Text.split '/' path) := by
  rintro ⟨before, after, hsplit, hne, hbefore, -⟩
  obtain ⟨rest, -, hpath⟩ := isAbsolute_iff.mp h
  cases before with
  | nil => exact hne rfl
  | cons b bs =>
    rw [hpath, List.cons_append, List.cons.injEq] at hsplit
    have hnamed := head?_of_cancels hbefore b rfl
    rw [← hsplit.1] at hnamed
    exact hnamed.1 rfl

theorem isAbsolute_collapsePath (h : ¬Uproots (Text.split '/' path)) :
    isAbsolute (collapsePath path) = isAbsolute path := by
  rw [Bool.eq_iff_iff]
  constructor
  · intro hcollapse
    obtain ⟨rest, hrest, hsplit⟩ := isAbsolute_iff.mp hcollapse
    have hrun := removes_collapse (Text.split '/' path)
    rw [← split_collapsePath, hsplit] at hrun
    obtain ⟨before, after, hpath, hbefore, hafter⟩ := exists_of_removals hrun hrest
    by_cases hne : before = []
    · exact isAbsolute_iff.mpr ⟨after, hafter, by rw [hpath, hne, List.nil_append]⟩
    · exact absurd ⟨before, after, hpath, hne, hbefore, hafter⟩ h
  · intro habsolute
    obtain ⟨rest, hrest, hpath⟩ := isAbsolute_iff.mp habsolute
    exact isAbsolute_collapsePath_of_cancels .nil hrest hpath

/-! ### Places -/

theorem placeOf_of_isAbsolute (h : isAbsolute path = true) (working : Place) :
    placeOf working path = walk [] (Text.split '/' path) := by
  rw [placeOf, if_pos h]

theorem placeOf_of_relative (h : ¬isAbsolute path = true) (working : Place) :
    placeOf working path = walk working (Text.split '/' path) := by
  rw [placeOf, if_neg h]

/-- A collapsed path leads to the place of the path. -/
theorem placeOf_collapsePath (hcurrent : ¬CancelsCurrent (Text.split '/' path))
    (huproots : ¬Uproots (Text.split '/' path)) (working : Place) :
    placeOf working (collapsePath path) = placeOf working path := by
  rw [placeOf, placeOf, isAbsolute_collapsePath huproots, split_collapsePath,
    walk_of_removals (removes_collapse _) hcurrent]

/-- A walk that never goes up from the root ends elsewhere once a parent segment is lost. -/
theorem walk_collapse_ne (hcurrent : CancelsCurrent segments)
    (hinside : StaysInside place segments) :
    walk place (collapse segments) ≠ walk place segments := by
  intro h
  have hpath := length_walk hinside
  have hcollapse := add_level_le place (collapse segments)
  have hlevel := level_lt_collapse hcurrent
  rw [h] at hcollapse
  omega

/-- A path that becomes absolute leads elsewhere from a working directory that is deep enough. -/
theorem exists_placeOf_ne_of_uproots (h : Uproots (Text.split '/' path)) :
    ∃ working, placeOf working (collapsePath path) ≠ placeOf working path := by
  obtain ⟨before, after, hpath, -, hbefore, hafter⟩ := id h
  have hcollapse := isAbsolute_collapsePath_of_cancels hbefore hafter hpath
  have hrelative : ¬isAbsolute path = true := fun habsolute => not_uproots_of_isAbsolute habsolute h
  -- the collapsed path leads to one place, whatever the working directory is
  let fixed := walk [] (Text.split '/' (collapsePath path))
  let working : Place :=
    List.replicate ((Text.split '/' path).length + fixed.length + 1) ['d']
  refine ⟨working, fun hsame => ?_⟩
  rw [placeOf_of_isAbsolute hcollapse, placeOf_of_relative hrelative] at hsame
  have hle := add_level_le working (Text.split '/' path)
  have hlevel := neg_length_le_level (Text.split '/' path)
  have hfixed : fixed.length = (walk working (Text.split '/' path)).length :=
    congrArg List.length hsame
  have hworking : working.length = (Text.split '/' path).length + fixed.length + 1 :=
    List.length_replicate
  omega

/-- A parent segment that is lost to a `.` leads elsewhere, unless the way there goes up from the
root. -/
theorem exists_placeOf_ne_of_cancelsCurrent (hcurrent : CancelsCurrent (Text.split '/' path))
    (huproots : ¬Uproots (Text.split '/' path))
    (hinside : isAbsolute path = true → StaysInside [] (Text.split '/' path)) :
    ∃ working, placeOf working (collapsePath path) ≠ placeOf working path := by
  by_cases habsolute : isAbsolute path = true
  · refine ⟨[], ?_⟩
    rw [placeOf, placeOf, isAbsolute_collapsePath huproots, split_collapsePath, if_pos habsolute]
    exact walk_collapse_ne hcurrent (hinside habsolute)
  · let working : Place := List.replicate (Text.split '/' path).length ['d']
    have hdeep : (Text.split '/' path).length ≤ working.length :=
      Nat.le_of_eq List.length_replicate.symm
    refine ⟨working, ?_⟩
    rw [placeOf, placeOf, isAbsolute_collapsePath huproots, split_collapsePath, if_neg habsolute]
    exact walk_collapse_ne hcurrent (staysInside_of_length_le hdeep)

theorem toList_resolve_eq (base reference : String) :
    (resolve base reference).toList =
      collapsePath (directory base.toList ++ reference.toList) := String.toList_ofList

/-- **Where a reference leads.**  If no parent segment cancels a `.` and the path does not become
absolute, a resolved reference leads to the place of the joined path, whatever the working directory
is.  If one of the two happens, there is a working directory from which it leads elsewhere, unless
the path is absolute and goes up from the root. -/
theorem resolve_same_place (base reference : String) :
    (¬CancelsCurrent (segmentsOf base reference) → ¬Uproots (segmentsOf base reference) →
      ∀ working, placeOf working (resolve base reference).toList =
        placeOf working (directory base.toList ++ reference.toList)) ∧
    ((isAbsolute (directory base.toList ++ reference.toList) = true →
        StaysInside [] (segmentsOf base reference)) →
      CancelsCurrent (segmentsOf base reference) ∨ Uproots (segmentsOf base reference) →
      ∃ working, placeOf working (resolve base reference).toList ≠
        placeOf working (directory base.toList ++ reference.toList)) := by
  rw [toList_resolve_eq]
  constructor
  · intro hcurrent huproots working
    exact placeOf_collapsePath hcurrent huproots working
  · intro hinside hcase
    by_cases huproots : Uproots (segmentsOf base reference)
    · exact exists_placeOf_ne_of_uproots huproots
    · exact exists_placeOf_ne_of_cancelsCurrent (hcase.resolve_right huproots) huproots hinside

/-- A reference to a sibling directory, and one that makes a path absolute. -/
theorem resolve_same_place_of_two_references :
    (∀ working, placeOf working (resolve "app/templates/menu.xml" "../css/menu.css").toList =
      placeOf working "app/templates/../css/menu.css".toList) ∧
    ∃ working, placeOf working (resolve "app/menu.xml" "..//css/menu.css").toList ≠
      placeOf working "app/..//css/menu.css".toList := by
  constructor
  · have hcurrent : current ∉ segmentsOf "app/templates/menu.xml" "../css/menu.css" := by decide
    have hempty : [] ∉ segmentsOf "app/templates/menu.xml" "../css/menu.css" := by decide
    exact (resolve_same_place "app/templates/menu.xml" "../css/menu.css").1
      (fun h => hcurrent h.mem) fun h => hempty h.mem
  · have huproots : Uproots (segmentsOf "app/menu.xml" "..//css/menu.css") :=
      ⟨["app".toList, parent], ["css".toList, "menu.css".toList], by decide, by simp,
        @Cancels.pair [] [] _ .nil (by decide), by simp⟩
    refine (resolve_same_place "app/menu.xml" "..//css/menu.css").2 (fun h => ?_) (.inr huproots)
    exact absurd h (by decide)

/-- With a `.` in front, a reference to a sibling directory leads to a directory of that name in the
directory of the template. -/
theorem leads_elsewhere_of_current :
    ¬∀ (base reference : String) (working : Place),
      placeOf working (resolve base reference).toList =
        placeOf working (directory base.toList ++ reference.toList) := by
  intro h
  have hplace := h "app/templates/menu.xml" "./../css/menu.css" []
  revert hplace
  decide

end Transclude.Location
