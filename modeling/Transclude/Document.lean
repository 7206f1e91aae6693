/-
Template documents.

A template document defines snippets and refers to the stylesheets and scripts that they rely on.
All three are elements of the reserved namespace, anywhere in the tree: the root itself counts, and
the search goes on inside of what it finds.

* `Document.ofRoot` — the definitions and references of a tree, each kind in document order;
* `Document.warnings` — the elements that had to be left out;
* `Document.parse_of_references` — a document without definitions is known by its references.
-/
import Transclude.Config
import Transclude.Markup.Tree
import Transclude.Warning

namespace Transclude

/-- A snippet element: its first child element is the fragment that it defines. -/
structure Definition where
  name : String
  fragment : Option Markup.Element
  childCount : Nat

/-- A reference to a stylesheet or script, with its location as written. -/
structure Reference where
  src : String
  /-- The owner function to call once a script has loaded. -/
  onLoaded : Option String
  deriving DecidableEq

/-- What a template document holds. -/
structure Document where
  definitions : List Definition
  stylesheets : List Reference
  scripts : List Reference

namespace Document

/-- The definition that a snippet element makes; without a name it makes none. -/
def definition? (e : Markup.Element) : Option Definition :=
  (e.attribute? "name").map fun name =>
    ⟨name, e.firstChildElement?, e.childElements.length⟩

/-- The reference that a stylesheet or script element makes; without a location it makes none. -/
def reference? (e : Markup.Element) : Option Reference :=
  (e.attribute? "src").map fun src => ⟨src, e.attribute? "onloadend"⟩

/-- The elements of a tree with a name of the namespace, in document order. -/
def elementsOf (ns : Namespace) (localName : String) (root : Markup.Element) :
    List Markup.Element :=
  root.elementsNamed (ns.qualify localName)

/-- The definitions and references of a tree. -/
def ofRoot (ns : Namespace) (root : Markup.Element) : Document where
  definitions := (elementsOf ns "snippet" root).filterMap definition?
  stylesheets := (elementsOf ns "stylesheet" root).filterMap reference?
  scripts := (elementsOf ns "script" root).filterMap reference?

/-- A warning for each element that lacks the attribute it needs. -/
def lacking (ns : Namespace) (localName needed : String) (warning : String → Warning)
    (root : Markup.Element) : List Warning :=
  ((elementsOf ns localName root).filter fun e => (e.attribute? needed).isNone).map
    fun _ => warning (ns.qualify localName)

/-- The warnings about a tree: snippets, then stylesheets, then scripts. -/
def warnings (ns : Namespace) (root : Markup.Element) : List Warning :=
  lacking ns "snippet" "name" .nameless root ++ lacking ns "stylesheet" "src" .sourceless root
    ++ lacking ns "script" "src" .sourceless root

/-- The document that a text holds, with the warnings about it. -/
def parse (ns : Namespace) (text : String) : Except Markup.ParseError (Document × List Warning) :=
  (Markup.parse text).map fun root => (ofRoot ns root, warnings ns root)

/-- If anything can be read of the document in a text, there is one, of which it is read. -/
theorem exists_parse_of_read {α : Type} {ns : Namespace} {text : String}
    {read : Document × List Warning → α} {x : α}
    (h : (parse ns text).toOption.map read = some x) : ∃ d, parse ns text = .ok d ∧ read d = x := by
  cases hparse : parse ns text with
  | error e =>
    rw [hparse] at h
    cases h
  | ok d =>
    rw [hparse] at h
    exact ⟨d, rfl, Option.some.inj h⟩

/-- A document without definitions is known by its references. -/
theorem parse_of_references {ns : Namespace} {text : String} {stylesheets scripts : List Reference}
    {warnings : List Warning}
    (h : ((parse ns text).toOption.map fun d =>
        (d.1.definitions.isEmpty, d.1.stylesheets, d.1.scripts, d.2)) =
      some (true, stylesheets, scripts, warnings)) :
    parse ns text = .ok (⟨[], stylesheets, scripts⟩, warnings) := by
  obtain ⟨⟨⟨definitions, stylesheets', scripts'⟩, warnings'⟩, hparse, hread⟩ := exists_parse_of_read h
  simp only [Prod.mk.injEq, List.isEmpty_iff] at hread
  obtain ⟨rfl, rfl, rfl, rfl⟩ := hread
  exact hparse

end Document

end Transclude
