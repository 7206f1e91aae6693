/-
Splitting a text at a separator character.

Dotted identifiers and slashed paths are both lists of segments.  A text with `n` separators has
`n + 1` segments, empty ones included.

* `join_split`, `split_join` — joining and splitting undo each other;
* `split_append` — a separator between two texts separates their segments;
* `join_append` — joining is joining by parts.
-/

namespace Transclude.Text

/-- The segments between the separators; there is always at least one. -/
def split (sep : Char) : List Char → List (List Char)
  | [] => [[]]
  | c :: cs =>
    if c = sep then [] :: split sep cs
    else
      match split sep cs with
      | [] => [[c]]
      | s :: ss => (c :: s) :: ss

/-- The segments with a separator between any two of them. -/
def join (sep : Char) : List (List Char) → List Char
  | [] => []
  | [s] => s
  | s :: t :: ss => s ++ sep :: join sep (t :: ss)

theorem split_ne_nil (sep : Char) (cs : List Char) : split sep cs ≠ [] := by
  cases cs with
  | nil => simp [split]
  | cons c cs =>
    unfold split
    split
    · simp
    · split <;> simp

theorem join_split (sep : Char) (cs : List Char) : join sep (split sep cs) = cs := by
  induction cs with
  | nil => rfl
  | cons c cs ih =>
    unfold split
    split
    · rename_i h
      cases hs : split sep cs with
      | nil => exact absurd hs (split_ne_nil sep cs)
      | cons s ss => rw [hs] at ih; simp [join, ih, h]
    · cases hs : split sep cs with
      | nil => exact absurd hs (split_ne_nil sep cs)
      | cons s ss =>
        rw [hs] at ih
        cases ss <;> simp_all [join]

theorem split_append (sep : Char) (a b : List Char) :
    split sep (a ++ sep :: b) = split sep a ++ split sep b := by
  induction a with
  | nil => simp [split]
  | cons c a ih =>
    by_cases h : c = sep
    · simp [split, h, ih]
    · cases hs : split sep a with
      | nil => exact absurd hs (split_ne_nil sep a)
      | cons s ss => simp [split, h, ih, hs]

theorem split_of_not_mem {sep : Char} {cs : List Char} (h : sep ∉ cs) : split sep cs = [cs] := by
  induction cs with
  | nil => rfl
  | cons c cs ih =>
    rw [List.mem_cons, not_or] at h
    simp [split, Ne.symm h.1, ih h.2]

theorem not_mem_of_mem_split {sep : Char} {s cs : List Char} (h : s ∈ split sep cs) :
    sep ∉ s := by
  induction cs generalizing s with
  | nil => simp_all [split]
  | cons c cs ih =>
    unfold split at h
    split at h
    · rcases List.mem_cons.mp h with rfl | h
      · exact List.not_mem_nil
      · exact ih h
    · rename_i hc
      cases hs : split sep cs with
      | nil => exact absurd hs (split_ne_nil sep cs)
      | cons t ts =>
        rw [hs] at h ih
        rcases List.mem_cons.mp h with rfl | h
        · rw [List.mem_cons, not_or]
          exact ⟨Ne.symm hc, ih List.mem_cons_self⟩
        · exact ih (List.mem_cons_of_mem t h)

/-- Segments without the separator are those of the text they are joined to. -/
theorem split_join {sep : Char} {segments : List (List Char)} (hne : segments ≠ [])
    (hsep : ∀ s ∈ segments, sep ∉ s) : split sep (join sep segments) = segments := by
  induction segments with
  | nil => exact absurd rfl hne
  | cons s ss ih =>
    rw [List.forall_mem_cons] at hsep
    cases ss with
    | nil => exact split_of_not_mem hsep.1
    | cons t ts =>
      rw [join, split_append, split_of_not_mem hsep.1, ih (List.cons_ne_nil t ts) hsep.2]
      rfl

theorem join_append (sep : Char) {xs ys : List (List Char)} (hxs : xs ≠ []) (hys : ys ≠ []) :
    join sep (xs ++ ys) = join sep xs ++ sep :: join sep ys := by
  induction xs with
  | nil => exact absurd rfl hxs
  | cons x xs ih =>
    cases xs with
    | nil =>
      cases ys with
      | nil => exact absurd rfl hys
      | cons y ys => rfl
    | cons x' xs =>
      have hrest := ih (List.cons_ne_nil x' xs)
      rw [List.cons_append] at hrest
      rw [List.cons_append, List.cons_append, join, hrest, join, List.append_assoc,
        List.cons_append]

end Transclude.Text
