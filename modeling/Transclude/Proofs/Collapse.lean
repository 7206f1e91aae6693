/-
Collapsing segments, and the hosts of templates.

A parent segment cancels the named segment before it.  What a run of segments leaves on the kept ones
does not depend on the pairs in it that cancel, and segments that cannot be cancelled keep all below
them in place.  For a template on a host the scheme is such a place, but the authority is a named
segment like any directory: a reference that climbs past the last directory cancels it.

* `collapseFrom_pair` — a named segment and a parent segment after it may be left out;
* `Cancels`, `Climbs` — segments that leave nothing, and a parent segment that finds only such ones
  before it;
* `collapseFrom_append` — a segment that is not named keeps what is below it;
* `resolve_on_host` — what a reference in a template on a host denotes, and when it stays there.

Design notes: one pass reads the segments with a stack, so all statements are about `collapseFrom`
with any stack.  The last segment never cancels, which is why a run has to go on with something.
-/
import Transclude.Location

namespace Transclude.Location

variable {k s : List Char} {kept segments rest xs : List (List Char)}

/-! ### One segment -/

/-- The segments that a parent segment cancels are those that are neither empty nor parent
segments. -/
theorem isNamed_iff : isNamed k = true ↔ k ≠ [] ∧ k ≠ parent := by
  simp [isNamed]

theorem ne_parent_of_isNamed (h : isNamed k = true) : k ≠ parent := (isNamed_iff.mp h).2

theorem forall_head?_cons :
    (∀ j ∈ (k :: kept).head?, isNamed j = false) ↔ isNamed k = false := by
  simp

/-- A segment cancels the last kept one, or nothing stands before it that it cancels. -/
theorem cancels_or_keeps (kept : List (List Char)) (s : List Char) :
    (s = parent ∧ ∃ k kept', kept = k :: kept' ∧ isNamed k = true) ∨
      (s = parent → ∀ k ∈ kept.head?, isNamed k = false) := by
  by_cases hs : s = parent
  · cases kept with
    | nil => exact .inr fun _ k hk => by cases hk
    | cons k kept' =>
      cases hk : isNamed k with
      | true => exact .inl ⟨hs, k, kept', rfl, hk⟩
      | false => exact .inr fun _ => forall_head?_cons.mpr hk
  · exact .inr fun h => absurd h hs

theorem collapseFrom_last (kept : List (List Char)) (s : List Char) :
    collapseFrom kept [s] = (s :: kept).reverse := by
  cases kept <;> rfl

theorem collapseFrom_cancel (hk : isNamed k = true) (kept : List (List Char)) (hrest : rest ≠ []) :
    collapseFrom (k :: kept) (parent :: rest) = collapseFrom kept rest := by
  cases rest with
  | nil => exact absurd rfl hrest
  | cons t rest => rw [collapseFrom, if_pos ⟨rfl, hk⟩]

theorem collapseFrom_keep (h : s = parent → ∀ k ∈ kept.head?, isNamed k = false)
    (hrest : rest ≠ []) : collapseFrom kept (s :: rest) = collapseFrom (s :: kept) rest := by
  cases rest with
  | nil => exact absurd rfl hrest
  | cons t rest =>
    cases kept with
    | nil => rw [collapseFrom]
    | cons k kept =>
      rw [collapseFrom, if_neg]
      rintro ⟨hs, hk⟩
      rw [h hs k rfl] at hk
      cases hk

theorem collapseFrom_ne_nil (kept : List (List Char)) (h : segments ≠ []) :
    collapseFrom kept segments ≠ [] := by
  induction segments generalizing kept with
  | nil => exact absurd rfl h
  | cons s rest ih =>
    by_cases hrest : rest = []
    · subst hrest
      rw [collapseFrom_last]
      simp
    · rcases cancels_or_keeps kept s with ⟨rfl, k, kept', rfl, hk⟩ | hkeep
      · rw [collapseFrom_cancel hk kept' hrest]
        exact ih kept' hrest
      · rw [collapseFrom_keep hkeep hrest]
        exact ih (s :: kept) hrest

/-! ### Segments that cancel -/

/-- A named segment with a parent segment after it may be left out, wherever it stands, as long as
the path goes on. -/
theorem collapseFrom_pair (hk : isNamed k = true) (kept xs : List (List Char)) (hrest : rest ≠ []) :
    collapseFrom kept (xs ++ k :: parent :: rest) = collapseFrom kept (xs ++ rest) := by
  induction xs generalizing kept with
  | nil =>
    rw [List.nil_append, List.nil_append,
      collapseFrom_keep (fun h => absurd h (ne_parent_of_isNamed hk)) (List.cons_ne_nil _ _),
      collapseFrom_cancel hk kept hrest]
  | cons s xs ih =>
    -- both paths go on, so the segment does the same in both
    have hlong : xs ++ k :: parent :: rest ≠ [] := by simp
    have hshort : xs ++ rest ≠ [] := by simp [hrest]
    rw [List.cons_append, List.cons_append]
    rcases cancels_or_keeps kept s with ⟨rfl, j, kept', rfl, hj⟩ | hkeep
    · rw [collapseFrom_cancel hj kept' hlong, collapseFrom_cancel hj kept' hshort, ih]
    · rw [collapseFrom_keep hkeep hlong, collapseFrom_keep hkeep hshort, ih]

/-- Segments that cancel each other: none at all, or such segments with a pair put in anywhere,
which is a segment with a name and the parent segment directly after it. -/
inductive Cancels : List (List Char) → Prop
  | nil : Cancels []
  | pair {xs ys : List (List Char)} {k : List Char} (h : Cancels (xs ++ ys))
    (hk : k ≠ [] ∧ k ≠ parent) : Cancels (xs ++ k :: parent :: ys)

/-- Segments that cancel each other leave nothing. -/
theorem Cancels.collapseFrom_append (h : Cancels xs) (kept : List (List Char))
    (hrest : rest ≠ []) : collapseFrom kept (xs ++ rest) = collapseFrom kept rest := by
  induction h with
  | nil => rfl
  | @pair xs ys k h hk ih =>
    have hgo : ys ++ rest ≠ [] := by simp [hrest]
    rw [List.append_assoc, List.cons_append, List.cons_append,
      collapseFrom_pair (isNamed_iff.mpr hk) kept xs hgo, ← List.append_assoc, ih]

/-- Whether a parent segment of a path finds nothing left to cancel: the segments before it cancel
each other, and it is not the last one. -/
def Climbs (segments : List (List Char)) : Prop :=
  ∃ xs ys, segments = xs ++ parent :: ys ∧ Cancels xs ∧ ys ≠ []

/-! ### What stays below -/

/-- A segment that is kept above others is kept on top of more of them as well. -/
theorem kept_append {base : List (List Char)}
    (h : s = parent → ∀ k ∈ kept.head?, isNamed k = false)
    (hbase : s = parent → kept = [] → ∀ k ∈ base.head?, isNamed k = false) :
    s = parent → ∀ k ∈ (kept ++ base).head?, isNamed k = false := by
  intro hs
  cases kept with
  | nil => exact hbase hs rfl
  | cons k kept => exact h hs

/-- A segment that is not named keeps all below it in place. -/
theorem collapseFrom_append {base : List (List Char)}
    (hbase : ∀ k ∈ base.head?, isNamed k = false) (kept segments : List (List Char)) :
    collapseFrom (kept ++ base) segments = base.reverse ++ collapseFrom kept segments := by
  induction segments generalizing kept with
  | nil => simp [collapseFrom]
  | cons s rest ih =>
    by_cases hrest : rest = []
    · subst hrest
      rw [collapseFrom_last, collapseFrom_last]
      simp
    · rcases cancels_or_keeps kept s with ⟨rfl, k, kept', rfl, hk⟩ | hkeep
      · rw [List.cons_append, collapseFrom_cancel hk _ hrest, collapseFrom_cancel hk _ hrest, ih]
      · have hkeep' := kept_append hkeep fun _ _ => hbase
        rw [collapseFrom_keep hkeep' hrest, collapseFrom_keep hkeep hrest, ← List.cons_append, ih]

/-- The lowest kept segment stays in place, or all segments kept above it and some of those that
follow cancel each other, and a parent segment comes next. -/
theorem collapseFrom_concat (lowest : List Char) (kept segments : List (List Char)) :
    collapseFrom (kept ++ [lowest]) segments = lowest :: collapseFrom kept segments ∨
      ∃ xs ys, segments = xs ++ parent :: ys ∧ Cancels (kept.reverse ++ xs) ∧ ys ≠ [] := by
  induction segments generalizing kept with
  | nil => exact .inl (by simp [collapseFrom])
  | cons s rest ih =>
    by_cases hrest : rest = []
    · subst hrest
      rw [collapseFrom_last, collapseFrom_last]
      exact .inl (by simp)
    · rcases cancels_or_keeps kept s with ⟨rfl, k, kept', rfl, hk⟩ | hkeep
      · rw [List.cons_append, collapseFrom_cancel hk _ hrest, collapseFrom_cancel hk _ hrest]
        rcases ih kept' with hstay | ⟨xs, ys, rfl, hcancel, hys⟩
        · exact .inl hstay
        · -- the pair that is cancelled here belongs to those that cancel
          refine .inr ⟨parent :: xs, ys, rfl, ?_, hys⟩
          rw [List.reverse_cons, List.append_assoc]
          exact .pair hcancel (isNamed_iff.mp hk)
      · by_cases hlast : s = parent ∧ kept = []
        · obtain ⟨rfl, rfl⟩ := hlast
          exact .inr ⟨[], rest, rfl, .nil, hrest⟩
        · have hkeep' : s = parent → ∀ k ∈ (kept ++ [lowest]).head?, isNamed k = false :=
            kept_append hkeep fun hs hkept => absurd ⟨hs, hkept⟩ hlast
          rw [collapseFrom_keep hkeep' hrest, collapseFrom_keep hkeep hrest]
          rcases ih (s :: kept) with hstay | ⟨xs, ys, rfl, hcancel, hys⟩
          · exact .inl hstay
          · refine .inr ⟨s :: xs, ys, rfl, ?_, hys⟩
            rwa [List.reverse_cons, List.append_assoc] at hcancel

/-- A path that climbs keeps the parent segment with which it does. -/
theorem Climbs.collapse_eq (h : Climbs segments) :
    ∃ zs, zs ≠ [] ∧ collapse segments = parent :: zs := by
  obtain ⟨xs, ys, rfl, hxs, hys⟩ := h
  refine ⟨collapse ys, collapseFrom_ne_nil [] hys, ?_⟩
  have hbase : ∀ k ∈ [parent].head?, isNamed k = false := forall_head?_cons.mpr rfl
  have hkeep : parent = parent → ∀ k ∈ ([] : List (List Char)).head?, isNamed k = false := by
    intro _ k hk
    cases hk
  rw [collapse, hxs.collapseFrom_append [] (List.cons_ne_nil _ _), collapseFrom_keep hkeep hys]
  exact collapseFrom_append hbase [] ys

/-! ### Templates on a host -/

/-- The segments of a reference in a template at `base`, before they are collapsed. -/
def segmentsOf (base reference : String) : List (List Char) :=
  Text.split '/' (directory base.toList ++ reference.toList)

/-- A host with its slash, the beginning of the locations on it. -/
def host (scheme authority : String) : String := scheme ++ "://" ++ authority ++ "/"

theorem segmentsOf_ne_nil (base reference : String) : segmentsOf base reference ≠ [] :=
  Text.split_ne_nil '/' _

theorem directory_append (a b : List Char) :
    directory (a ++ '/' :: b) = a ++ '/' :: directory b := by
  have hslash : ('/' :: a.reverse).dropWhile (· != '/') = '/' :: a.reverse := rfl
  rw [directory, directory, List.reverse_append, List.reverse_cons, List.append_assoc,
    List.singleton_append, List.dropWhile_append]
  split
  · rename_i hempty
    rw [hslash, List.isEmpty_iff.mp hempty]
    simp
  · simp

theorem segmentsOf_host {scheme authority : String} (hscheme : '/' ∉ scheme.toList)
    (hauthority : '/' ∉ authority.toList) (rest reference : String) :
    segmentsOf (host scheme authority ++ rest) reference =
      (scheme.toList ++ [':']) :: [] :: authority.toList :: segmentsOf rest reference := by
  have hcolon : '/' ∉ scheme.toList ++ [':'] := by simp [hscheme]
  have hbase : (host scheme authority ++ rest).toList =
      ((scheme.toList ++ [':']) ++ '/' :: '/' :: authority.toList) ++ '/' :: rest.toList := by
    simp [host]
  -- the path, cut at the three slashes that are no part of what follows the host
  have hpath : directory (host scheme authority ++ rest).toList ++ reference.toList =
      (scheme.toList ++ [':']) ++ '/' ::
        ([] ++ '/' :: (authority.toList ++ '/' :: (directory rest.toList ++ reference.toList))) := by
    rw [hbase, directory_append]
    simp
  rw [segmentsOf, hpath, Text.split_append, Text.split_append, Text.split_append,
    Text.split_of_not_mem hcolon, Text.split_of_not_mem hauthority]
  rfl

theorem toList_resolve (base reference : String) :
    (resolve base reference).toList = Text.join '/' (collapse (segmentsOf base reference)) :=
  String.toList_ofList

/-- Below the scheme of a host everything is kept on its authority. -/
theorem collapse_host {scheme authority : List Char} (hsegments : segments ≠ []) :
    collapse ((scheme ++ [':']) :: [] :: authority :: segments) =
      (scheme ++ [':']) :: [] :: collapseFrom [authority] segments := by
  have hbase : ∀ k ∈ [[], scheme ++ [':']].head?, isNamed k = false :=
    forall_head?_cons.mpr rfl
  have hfirst : scheme ++ [':'] = parent →
      ∀ k ∈ ([] : List (List Char)).head?, isNamed k = false := by
    intro _ k hk
    cases hk
  have hsecond : ([] : List Char) = parent → ∀ k ∈ [scheme ++ [':']].head?, isNamed k = false := by
    intro h
    cases h
  rw [collapse, collapseFrom_keep hfirst (List.cons_ne_nil _ _),
    collapseFrom_keep hsecond (List.cons_ne_nil _ _),
    collapseFrom_keep (fun _ => hbase) hsegments]
  exact collapseFrom_append hbase [authority] segments

/-- The location that a reference in a template on a host denotes, by what is kept on the
authority. -/
theorem resolve_host {scheme authority : String} (hscheme : '/' ∉ scheme.toList)
    (hauthority : '/' ∉ authority.toList) (rest reference : String) :
    resolve (host scheme authority ++ rest) reference =
      scheme ++ "://" ++ String.ofList
        (Text.join '/' (collapseFrom [authority.toList] (segmentsOf rest reference))) := by
  have hsegments := segmentsOf_ne_nil rest reference
  have hkept := collapseFrom_ne_nil [authority.toList] hsegments
  apply String.toList_inj.mp
  rw [toList_resolve, segmentsOf_host hscheme hauthority, collapse_host hsegments]
  cases hc : collapseFrom [authority.toList] (segmentsOf rest reference) with
  | nil => exact absurd hc hkept
  | cons s ss => simp [Text.join]

/-- **A reference stays on the host of its template until it climbs above the directories.**  As long
as it does not, it denotes a location on the host, the one that it denotes beneath it.  Once a parent
segment finds nothing but segments that cancel each other between it and the authority, it cancels
the authority as well, if that is named, and what follows is resolved without a host. -/
theorem resolve_on_host (scheme authority rest reference : String)
    (hscheme : '/' ∉ scheme.toList) (hauthority : '/' ∉ authority.toList) :
    ((isNamed authority.toList = true → ¬Climbs (segmentsOf rest reference)) →
      (host scheme authority).toList <+: (resolve (host scheme authority ++ rest) reference).toList ∧
      resolve (host scheme authority ++ rest) reference =
        host scheme authority ++ resolve rest reference) ∧
    (isNamed authority.toList = true → ∀ xs ys, segmentsOf rest reference = xs ++ parent :: ys →
      Cancels xs → ys ≠ [] → resolve (host scheme authority ++ rest) reference =
        scheme ++ "://" ++ String.ofList (Text.join '/' (collapse ys))) := by
  constructor
  · intro hstays
    have hkept : collapseFrom [authority.toList] (segmentsOf rest reference) =
        authority.toList :: collapse (segmentsOf rest reference) := by
      cases hnamed : isNamed authority.toList with
      | false => exact collapseFrom_append (forall_head?_cons.mpr hnamed) [] _
      | true =>
        rcases collapseFrom_concat authority.toList [] (segmentsOf rest reference) with h | hclimbs
        · exact h
        · exact absurd hclimbs (hstays hnamed)
    have heq : resolve (host scheme authority ++ rest) reference =
        host scheme authority ++ resolve rest reference := by
      have hbelow : collapse (segmentsOf rest reference) ≠ [] :=
        collapseFrom_ne_nil [] (segmentsOf_ne_nil rest reference)
      apply String.toList_inj.mp
      rw [resolve_host hscheme hauthority, hkept, ← List.singleton_append,
        Text.join_append '/' (List.cons_ne_nil _ _) hbelow, String.toList_append,
        String.toList_append, String.toList_append, String.toList_ofList, toList_resolve]
      simp [host, Text.join]
    refine ⟨?_, heq⟩
    rw [heq, String.toList_append]
    exact List.prefix_append _ _
  · intro hnamed xs ys hsegments hcancels hys
    rw [resolve_host hscheme hauthority, hsegments,
      hcancels.collapseFrom_append _ (List.cons_ne_nil _ _), collapseFrom_cancel hnamed [] hys]
    rfl

/-- A reference that stays in the directories of its template, and one that leaves them and the
host. -/
theorem resolve_on_host_of_two_references :
    resolve "http://host/tpl/t.xml" "../s.css" = "http://host/s.css" ∧
    resolve "http://host/tpl/t.xml" "../../other/s.css" = "http://other/s.css" := by
  have hstays : ¬Climbs (segmentsOf "tpl/t.xml" "../s.css") := by
    intro hclimbs
    obtain ⟨zs, -, heq⟩ := hclimbs.collapse_eq
    have hcollapse : collapse (segmentsOf "tpl/t.xml" "../s.css") = ["s.css".toList] := by decide
    rw [hcollapse] at heq
    cases heq
  have hsegments : segmentsOf "tpl/t.xml" "../../other/s.css" =
      ["tpl".toList, parent] ++ parent :: ["other".toList, "s.css".toList] := by decide
  have hcancels : Cancels ["tpl".toList, parent] := @Cancels.pair [] [] _ .nil (by decide)
  have hbound := fun reference =>
    resolve_on_host "http" "host" "tpl/t.xml" reference (by decide) (by decide)
  exact ⟨((hbound "../s.css").1 fun _ => hstays).2,
    (hbound "../../other/s.css").2 rfl _ _ hsegments hcancels (by simp)⟩

/-- A reference that leaves the only directory denotes a location on another host. -/
theorem leaves_host_of_parent :
    ¬∀ scheme authority rest reference : String, scheme ≠ "" → authority ≠ "" →
      '/' ∉ scheme.toList → '/' ∉ authority.toList →
      (host scheme authority).toList <+:
        (resolve (host scheme authority ++ rest) reference).toList := by
  intro h
  have hprefix := h "http" "host" "t.xml" "../other/s.css" (by decide) (by decide) (by decide)
    (by decide)
  revert hprefix
  decide

end Transclude.Location
