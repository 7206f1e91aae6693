/-
Trees of markup.

An element has a name, attributes in the order they were written, and children, which are elements
and texts.  Names are qualified names, with the namespace in front of a colon; nothing here looks
into them.

* `Element.descendantsNamed` — all elements below one with a given name, in document order;
* `Element.textContent` — all text below an element, in document order.
-/

namespace Transclude.Markup

mutual

/-- An element of a tree. -/
structure Element where
  name : String
  attributes : List (String × String) := []
  children : List Node := []

/-- An element or a text. -/
inductive Node where
  | element (e : Element)
  | text (s : String)

end

instance : Inhabited Element := ⟨⟨"", [], []⟩⟩
instance : Inhabited Node := ⟨.text ""⟩

/-- The element that a node is. -/
def Node.element? : Node → Option Element
  | element e => some e
  | text _ => none

namespace Element

/-- The value of the first attribute with this name. -/
def attribute? (e : Element) (name : String) : Option String :=
  (e.attributes.find? (fun a => a.1 == name)).map Prod.snd

/-- The children that are elements. -/
def childElements (e : Element) : List Element := e.children.filterMap Node.element?

/-- The first child that is an element. -/
def firstChildElement? (e : Element) : Option Element := e.childElements.head?

/-- The first child element with this name. -/
def childNamed? (e : Element) (name : String) : Option Element :=
  e.childElements.find? (fun c => c.name == name)

mutual

/-- The elements below an element with this name, in document order; the search goes on inside
those it finds. -/
def descendantsNamed (name : String) : Element → List Element
  | ⟨_, _, children⟩ => namedAmong name children

/-- The elements among some nodes and below them with this name, in document order. -/
def namedAmong (name : String) : List Node → List Element
  | [] => []
  | .text _ :: ns => namedAmong name ns
  | .element e :: ns =>
    (if e.name = name then [e] else []) ++ (descendantsNamed name e ++ namedAmong name ns)

end

/-- The elements at or below an element with this name, in document order. -/
def elementsNamed (name : String) (e : Element) : List Element :=
  (if e.name = name then [e] else []) ++ descendantsNamed name e

mutual

/-- All text below an element. -/
def textContent : Element → String
  | ⟨_, _, children⟩ => textAmong children

/-- All text in and below some nodes. -/
def textAmong : List Node → String
  | [] => ""
  | .text s :: ns => s ++ textAmong ns
  | .element e :: ns => textContent e ++ textAmong ns

end

end Element

end Transclude.Markup
