/-
Collapsing pair by pair.

A path can also be collapsed by hand: take out a named segment and the parent segment directly after
it, again and again, until there is no such pair.  The order does not matter, since every removal
keeps what the single pass makes of the path, and the pass itself only makes removals.

* `Removes`, `PathRemoves` — one pair is taken out, of segments and of a path;
* `removes_collapse` — the single pass is a run of removals;
* `not_removes_collapse` — it leaves no pair;
* `collapsePath_iff` — every run of removals ends, and where none is left is the collapsed path.

Design notes: two runs need not be compared with each other.  A removal keeps the collapsed path
(`Removes.collapse_eq`) and makes the path shorter, which is confluence and termination at once.
-/
import Mathlib.Logic.Relation
import Transclude.Proofs.Collapse

namespace Transclude.Location

open Relation (ReflTransGen)

variable {segments segments' : List (List Char)} {path path' : List Char}

/-! ### Segments -/

/-- A segment with a name, which is neither empty nor a parent segment itself, and the parent segment
directly after it are taken out; the parent segment is not the last one. -/
inductive Removes : List (List Char) → List (List Char) → Prop
  | pair (xs : List (List Char)) {k : List Char} {rest : List (List Char)}
    (hk : k ≠ [] ∧ k ≠ parent) (hrest : rest ≠ []) :
    Removes (xs ++ k :: parent :: rest) (xs ++ rest)

theorem Removes.collapse_eq (h : Removes segments segments') :
    collapse segments = collapse segments' := by
  cases h with
  | pair xs hk hrest => exact collapseFrom_pair (isNamed_iff.mpr hk) [] xs hrest

theorem Removes.length_lt (h : Removes segments segments') :
    segments'.length < segments.length := by
  cases h with
  | pair xs hk hrest =>
    simp only [List.length_append, List.length_cons]
    omega

theorem Removes.ne_nil (h : Removes segments segments') : segments' ≠ [] := by
  cases h with
  | pair xs hk hrest => exact List.append_ne_nil_of_right_ne_nil xs hrest

theorem Removes.mem {s : List Char} (h : Removes segments segments') (hs : s ∈ segments') :
    s ∈ segments := by
  cases h with
  | pair xs hk hrest =>
    rcases List.mem_append.mp hs with hs | hs
    · exact List.mem_append_left _ hs
    · exact List.mem_append_right _ (List.mem_cons_of_mem _ (List.mem_cons_of_mem _ hs))

theorem collapse_eq_of_removals (h : ReflTransGen Removes segments segments') :
    collapse segments = collapse segments' := by
  induction h with
  | refl => rfl
  | tail _ hstep ih => exact ih.trans hstep.collapse_eq

theorem length_le_of_removals (h : ReflTransGen Removes segments segments') :
    segments'.length ≤ segments.length := by
  induction h with
  | refl => exact Nat.le_refl _
  | tail _ hstep ih => exact Nat.le_trans (Nat.le_of_lt hstep.length_lt) ih

/-- From any place on, the single pass takes out pairs of what is kept and what is still to come. -/
theorem removes_collapseFrom (kept segments : List (List Char)) :
    ReflTransGen Removes (kept.reverse ++ segments) (collapseFrom kept segments) := by
  induction segments generalizing kept with
  | nil =>
    rw [List.append_nil, collapseFrom]
  | cons s rest ih =>
    by_cases hrest : rest = []
    · subst hrest
      rw [collapseFrom_last, List.reverse_cons]
    · rcases cancels_or_keeps kept s with ⟨rfl, k, kept', rfl, hk⟩ | hkeep
      · rw [collapseFrom_cancel hk kept' hrest, List.reverse_cons, List.append_assoc]
        exact .head (.pair kept'.reverse (isNamed_iff.mp hk) hrest) (ih kept')
      · have hnext := ih (s :: kept)
        rw [List.reverse_cons, List.append_assoc] at hnext
        rw [collapseFrom_keep hkeep hrest]
        exact hnext

/-- The single pass takes out pairs. -/
theorem removes_collapse (segments : List (List Char)) :
    ReflTransGen Removes segments (collapse segments) := removes_collapseFrom [] segments

theorem collapse_collapse (segments : List (List Char)) :
    collapse (collapse segments) = collapse segments :=
  (collapse_eq_of_removals (removes_collapse segments)).symm

/-- The single pass leaves no pair: the segments without it would collapse to the same ones, which
are more than they. -/
theorem not_removes_collapse (segments : List (List Char)) :
    ¬Removes (collapse segments) segments' := by
  intro h
  have hsame : collapse segments' = collapse segments := by
    rw [← h.collapse_eq, collapse_collapse]
  have hle := length_le_of_removals (removes_collapse segments')
  rw [hsame] at hle
  exact absurd h.length_lt (Nat.not_lt.mpr hle)

/-! ### Paths -/

/-- A pair of segments of a path is taken out. -/
def PathRemoves (path path' : List Char) : Prop :=
  ∃ segments, Removes (Text.split '/' path) segments ∧ path' = Text.join '/' segments

/-- Segments of a path that are left after a removal are those of a path. -/
theorem split_join_of_removes (h : Removes (Text.split '/' path) segments) :
    Text.split '/' (Text.join '/' segments) = segments :=
  Text.split_join h.ne_nil fun _ hs => Text.not_mem_of_mem_split (h.mem hs)

theorem pathRemoves_iff :
    PathRemoves path path' ↔ Removes (Text.split '/' path) (Text.split '/' path') := by
  constructor
  · rintro ⟨segments, h, rfl⟩
    rwa [split_join_of_removes h]
  · intro h
    exact ⟨_, h, (Text.join_split '/' path').symm⟩

/-- A run of removals among the segments of a path is one of the path. -/
theorem pathRemovals_of_removals (h : ReflTransGen Removes (Text.split '/' path) segments) :
    Text.split '/' (Text.join '/' segments) = segments ∧
      ReflTransGen PathRemoves path (Text.join '/' segments) := by
  induction h with
  | refl => rw [Text.join_split]; exact ⟨rfl, .refl⟩
  | @tail b c _ hstep ih =>
    obtain ⟨hb, hrun⟩ := ih
    rw [← hb] at hstep
    exact ⟨split_join_of_removes hstep, hrun.tail ⟨c, hstep, rfl⟩⟩

theorem split_collapsePath (path : List Char) :
    Text.split '/' (collapsePath path) = collapse (Text.split '/' path) :=
  (pathRemovals_of_removals (removes_collapse _)).1

theorem collapsePath_eq_of_removals (h : ReflTransGen PathRemoves path path') :
    collapsePath path = collapsePath path' := by
  induction h with
  | refl => rfl
  | tail _ hstep ih =>
    rw [ih, collapsePath, collapsePath, (pathRemoves_iff.mp hstep).collapse_eq]

theorem removes_collapsePath (path : List Char) :
    ReflTransGen PathRemoves path (collapsePath path) :=
  (pathRemovals_of_removals (removes_collapse _)).2

theorem not_removes_collapsePath (path : List Char) :
    ¬PathRemoves (collapsePath path) path' := by
  rw [pathRemoves_iff, split_collapsePath]
  exact not_removes_collapse _

/-- Every removal makes a path shorter, so that none goes on forever. -/
theorem wellFounded_pathRemoves : WellFounded fun path' path => PathRemoves path path' :=
  Subrelation.wf (fun h => (pathRemoves_iff.mp h).length_lt)
    (measure fun path => (Text.split '/' path).length).wf

/-- **The single pass finds the one collapsed form.**  However pairs are taken out of a path, this
comes to an end, and the path that it ends with is the collapsed one; so that has no pair left, and
it collapses to itself. -/
theorem collapsePath_iff :
    WellFounded (fun path' path => PathRemoves path path') ∧
    (∀ path path', (ReflTransGen PathRemoves path path' ∧ ∀ next, ¬PathRemoves path' next) ↔
      path' = collapsePath path) ∧
    (∀ path next, ¬PathRemoves (collapsePath path) next) ∧
    (∀ path, collapsePath (collapsePath path) = collapsePath path) := by
  refine ⟨wellFounded_pathRemoves, fun path path' => ?_, fun path next =>
    not_removes_collapsePath path, fun path => ?_⟩
  · constructor
    · rintro ⟨hrun, hend⟩
      -- the pass takes nothing out of a path that has no pair
      have hself : collapsePath path' = path' := by
        rcases (removes_collapsePath path').cases_head with h | ⟨next, h, -⟩
        · exact h.symm
        · exact absurd h (hend next)
      rw [collapsePath_eq_of_removals hrun, hself]
    · rintro rfl
      exact ⟨removes_collapsePath path, fun next => not_removes_collapsePath path⟩
  · exact (collapsePath_eq_of_removals (removes_collapsePath path)).symm

/-- A path with a pair inside of another, from which pairs are taken out in any order: two parent
segments stay, the one without a name before it and the last one. -/
theorem collapsePath_iff_of_nested_pairs :
    let path := "../a/b/c/../../x/../y/..".toList
    (∀ path', (ReflTransGen PathRemoves path path' ∧ ∀ next, ¬PathRemoves path' next) ↔
      path' = "../a/y/..".toList) ∧
    PathRemoves path "../a/b/c/../../y/..".toList ∧ ∀ next, ¬PathRemoves "../a/y/..".toList next := by
  intro path
  have hcollapsed : collapsePath path = "../a/y/..".toList := by decide
  have hpair : Removes (Text.split '/' path) (Text.split '/' "../a/b/c/../../y/..".toList) :=
    @Removes.pair (Text.split '/' "../a/b/c/../..".toList) "x".toList ["y".toList, parent]
      (by decide) (by decide)
  obtain ⟨_, hends, hnone, _⟩ := collapsePath_iff
  rw [← hcollapsed]
  exact ⟨hends path, pathRemoves_iff.mpr hpair, hnone path⟩

end Transclude.Location
