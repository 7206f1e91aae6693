/-
The registry of snippets.

A registry maps names to fragments; of several fragments registered under one name the last is kept.
A definition without a child element registers nothing.

* `get?_register` — what a registration changes, and that it changes nothing else;
* `Registry.collect` — the registrations of a whole document;
* `contains_collect` — afterwards all its names are there.
-/
import Transclude.Document
import Transclude.Text.Sort

namespace Transclude

/-- Fragments by name, each name once, in the order of their first registration. -/
structure Registry where
  entries : List (String × Markup.Element) := []

namespace Registry

/-- The entries with one more; it replaces the fragment of an entry with its name. -/
def put (name : String) (fragment : Markup.Element) :
    List (String × Markup.Element) → List (String × Markup.Element)
  | [] => [(name, fragment)]
  | e :: es => if e.1 = name then (name, fragment) :: es else e :: put name fragment es

/-- The fragment registered under a name. -/
def get? (r : Registry) (name : String) : Option Markup.Element :=
  (r.entries.find? (fun e => e.1 == name)).map Prod.snd

/-- Whether a name is registered. -/
def contains (r : Registry) (name : String) : Bool := (r.get? name).isSome

/-- The registered names, sorted. -/
def names (r : Registry) : List String := Text.sort (r.entries.map Prod.fst)

/-- The registry with a fragment under a name. -/
def register (r : Registry) (name : String) (fragment : Markup.Element) : Registry :=
  ⟨put name fragment r.entries⟩

/-- The registry with a definition; one without a fragment leaves it as it is. -/
def define (r : Registry) (d : Definition) : Registry :=
  match d.fragment with
  | some fragment => r.register d.name fragment
  | none => r

/-- The registry with all definitions of a document. -/
def collect (r : Registry) (d : Document) : Registry := d.definitions.foldl define r

theorem find?_put (name n : String) (fragment : Markup.Element)
    (es : List (String × Markup.Element)) :
    ((put name fragment es).find? (fun e => e.1 == n)).map Prod.snd =
      if n = name then some fragment else (es.find? (fun e => e.1 == n)).map Prod.snd := by
  induction es with
  | nil =>
    by_cases h : n = name
    · simp [put, h]
    · simp [put, h, Ne.symm h]
  | cons e es ih =>
    by_cases he : e.1 = name
    · by_cases h : n = name
      · simp [put, he, h]
      · simp [put, he, h, Ne.symm h]
    · by_cases h : n = name
      · subst h; simp [put, he, ih]
      · by_cases hn : e.1 = n
        · subst hn; simp [put, h]
        · simp [put, he, h, hn, ih]

theorem get?_register (r : Registry) (name n : String) (fragment : Markup.Element) :
    (r.register name fragment).get? n = if n = name then some fragment else r.get? n :=
  find?_put name n fragment r.entries

end Registry

namespace Definition

/-- Whether a definition registers anything. -/
def registers (d : Definition) : Bool := d.fragment.isSome

/-- The warnings about a definition that comes from `origin`. -/
def warnings (origin : String) (d : Definition) : List Warning :=
  (if 1 < d.childCount then [.severalChildren origin d.name d.childCount] else [])
    ++ (if d.registers then [] else [.noChild origin d.name])

end Definition

namespace Document

/-- The names that collecting a document registers, in document order. -/
def registeredNames (d : Document) : List String :=
  (d.definitions.filter Definition.registers).map Definition.name

/-- The document in a text, by the names that it registers and its references. -/
theorem exists_parse_of_names {ns : Namespace} {text : String} {names : List String}
    {stylesheets scripts : List Reference}
    (h : ((parse ns text).toOption.map fun d =>
        (d.1.registeredNames, d.1.stylesheets, d.1.scripts)) = some (names, stylesheets, scripts)) :
    ∃ document warnings, parse ns text = .ok (document, warnings) ∧
      document.registeredNames = names ∧ document.stylesheets = stylesheets ∧
        document.scripts = scripts := by
  obtain ⟨⟨document, warnings⟩, hparse, hread⟩ := exists_parse_of_read h
  simp only [Prod.mk.injEq] at hread
  exact ⟨document, warnings, hparse, hread⟩

/-- The warnings about the definitions of a document that comes from `origin`. -/
def definitionWarnings (origin : String) (d : Document) : List Warning :=
  d.definitions.flatMap (Definition.warnings origin)

end Document

namespace Registry

theorem contains_define {r : Registry} {name : String} (h : r.contains name = true)
    (d : Definition) : (r.define d).contains name = true := by
  rw [define]
  split
  · rw [contains, get?_register]
    split
    · rfl
    · exact h
  · exact h

theorem contains_foldl_define {r : Registry} {name : String}
    (h : r.contains name = true) (ds : List Definition) :
    (ds.foldl define r).contains name = true := by
  induction ds generalizing r with
  | nil => exact h
  | cons d ds ih => exact ih (contains_define h d)

/-- The names that collecting a document registers are there afterwards. -/
theorem contains_collect (r : Registry) (d : Document) {name : String}
    (h : name ∈ d.registeredNames) : (r.collect d).contains name = true := by
  obtain ⟨definition, hmem, rfl⟩ := List.mem_map.mp h
  obtain ⟨hmem, hregisters⟩ := List.mem_filter.mp hmem
  obtain ⟨earlier, later, hsplit⟩ := List.append_of_mem hmem
  obtain ⟨fragment, hfragment⟩ := Option.isSome_iff_exists.mp hregisters
  rw [collect, hsplit, List.foldl_append, List.foldl_cons]
  refine contains_foldl_define ?_ later
  rw [define, hfragment, contains]
  simp [get?_register]

end Registry

end Transclude
