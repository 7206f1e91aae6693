/-
Sorted lists of texts.

Names and paths are listed in the order of their characters.

* `mem_sort` — sorting keeps exactly the texts that are there;
* `sortDistinct` — each text once.
-/

namespace Transclude.Text

/-- A sorted list with one more text. -/
def insertSorted (s : String) : List String → List String
  | [] => [s]
  | t :: ts => if s < t then s :: t :: ts else t :: insertSorted s ts

/-- The texts in order. -/
def sort (xs : List String) : List String := xs.foldr insertSorted []

/-- A list without repetitions of neighbours. -/
def dropRepeated : List String → List String
  | [] => []
  | [s] => [s]
  | s :: t :: ts => if s = t then dropRepeated (t :: ts) else s :: dropRepeated (t :: ts)

/-- The texts in order, each once. -/
def sortDistinct (xs : List String) : List String := dropRepeated (sort xs)

theorem mem_insertSorted {a s : String} {ts : List String} :
    a ∈ insertSorted s ts ↔ a = s ∨ a ∈ ts := by
  induction ts with
  | nil => simp [insertSorted]
  | cons t ts ih =>
    by_cases h : s < t
    · simp [insertSorted, h]
    · simp only [insertSorted, h, if_false, List.mem_cons, ih]
      constructor
      · rintro (h | h | h) <;> simp [h]
      · rintro (h | h | h) <;> simp [h]

theorem mem_sort {a : String} {xs : List String} : a ∈ sort xs ↔ a ∈ xs := by
  induction xs with
  | nil => simp [sort]
  | cons x xs ih =>
    simp only [sort, List.foldr_cons, mem_insertSorted, List.mem_cons] at ih ⊢
    rw [ih]

end Transclude.Text
