/-
Trees of output.

Production makes elements of its own: a tag, attributes with distinct names in the order of their
first setting, children, and the functions that are bound to events.  The type `κ` is whatever stands
for a function; the tree only carries it.

* `attribute?_setAttribute` — what setting an attribute changes, and that it changes nothing else;
* `Element.same` — equality of trees, where two bindings are equal when they bind the same name.
-/
import Transclude.Value.Basic

namespace Transclude.Output

/-- A function bound to an event. -/
structure Binding (κ : Type) where
  event : String
  /-- The name that the function was found under. -/
  function : String
  callback : κ

mutual

/-- An element of output. -/
structure Element (κ : Type) where
  tag : String
  attributes : List (String × String) := []
  children : List (Node κ) := []
  handlers : List (Binding κ) := []

/-- An element or a text. -/
inductive Node (κ : Type) where
  | element (e : Element κ)
  | text (s : String)

end

instance {κ : Type} : Inhabited (Element κ) := ⟨⟨"", [], [], []⟩⟩
instance {κ : Type} : Inhabited (Node κ) := ⟨.text ""⟩

variable {κ : Type}

/-- The element that a node is. -/
def Node.element? : Node κ → Option (Element κ)
  | element e => some e
  | text _ => none

/-- Whether a node is a text. -/
def Node.isText : Node κ → Bool
  | element _ => false
  | text _ => true

/-! ### Attributes -/

/-- The attributes with one set; an attribute that is there keeps its place. -/
def putAttribute (name value : String) : List (String × String) → List (String × String)
  | [] => [(name, value)]
  | a :: as => if a.1 = name then (name, value) :: as else a :: putAttribute name value as

/-- The attributes without the first one of a name. -/
def dropAttribute (name : String) : List (String × String) → List (String × String)
  | [] => []
  | a :: as => if a.1 = name then as else a :: dropAttribute name as

namespace Element

/-- The value of an attribute. -/
def attribute? (e : Element κ) (name : String) : Option String :=
  (e.attributes.find? (fun a => a.1 == name)).map Prod.snd

/-- The element with an attribute set. -/
def setAttribute (e : Element κ) (name value : String) : Element κ :=
  { e with attributes := putAttribute name value e.attributes }

/-- The element without an attribute. -/
def removeAttribute (e : Element κ) (name : String) : Element κ :=
  { e with attributes := dropAttribute name e.attributes }

/-- The element with one more child. -/
def append (e : Element κ) (n : Node κ) : Element κ := { e with children := e.children ++ [n] }

/-- The element with one more function bound. -/
def bind (e : Element κ) (event function : String) (callback : κ) : Element κ :=
  { e with handlers := e.handlers ++ [⟨event, function, callback⟩] }

/-- The functions bound to an event, in the order of their binding. -/
def boundTo (e : Element κ) (event : String) : List (Binding κ) :=
  e.handlers.filter (fun b => b.event == event)

/-- The children that are elements. -/
def childElements (e : Element κ) : List (Element κ) := e.children.filterMap Node.element?

theorem find?_putAttribute (name n value : String) (as : List (String × String)) :
    ((putAttribute name value as).find? (fun a => a.1 == n)).map Prod.snd =
      if n = name then some value else (as.find? (fun a => a.1 == n)).map Prod.snd := by
  induction as with
  | nil =>
    by_cases h : n = name
    · simp [putAttribute, h]
    · simp [putAttribute, h, Ne.symm h]
  | cons a as ih =>
    by_cases ha : a.1 = name
    · by_cases h : n = name
      · simp [putAttribute, ha, h]
      · simp [putAttribute, ha, h, Ne.symm h]
    · by_cases h : n = name
      · subst h; simp [putAttribute, ha, ih]
      · by_cases hn : a.1 = n
        · subst hn; simp [putAttribute, h]
        · simp [putAttribute, ha, h, hn, ih]

theorem attribute?_setAttribute (e : Element κ) (name n value : String) :
    (e.setAttribute name value).attribute? n = if n = name then some value else e.attribute? n :=
  find?_putAttribute name n value e.attributes

/-! ### Whole trees -/

mutual

/-- All text below an element. -/
def textContent : Element κ → String
  | ⟨_, _, children, _⟩ => textAmong children

/-- All text in and below some nodes. -/
def textAmong : List (Node κ) → String
  | [] => ""
  | .text s :: ns => s ++ textAmong ns
  | .element e :: ns => textContent e ++ textAmong ns

end

mutual

/-- Equality of trees; of two bindings only the events and the names are compared. -/
def same : Element κ → Element κ → Bool
  | ⟨tag, attrs, children, handlers⟩, ⟨tag', attrs', children', handlers'⟩ =>
    tag == tag' && attrs == attrs' && sameNodes children children'
      && handlers.map (fun b => (b.event, b.function))
        == handlers'.map (fun b => (b.event, b.function))

/-- Equality of trees, one by one. -/
def sameNodes : List (Node κ) → List (Node κ) → Bool
  | [], [] => true
  | .text s :: ns, .text t :: ms => s == t && sameNodes ns ms
  | .element d :: ns, .element e :: ms => same d e && sameNodes ns ms
  | _, _ => false

end

mutual

/-- The tree with every bound function replaced. -/
def mapCallbacks {μ : Type} (f : Binding κ → μ) : Element κ → Element μ
  | ⟨tag, attrs, children, handlers⟩ =>
    ⟨tag, attrs, mapCallbacksAmong f children,
      handlers.map fun b => ⟨b.event, b.function, f b⟩⟩

/-- The trees with every bound function replaced. -/
def mapCallbacksAmong {μ : Type} (f : Binding κ → μ) : List (Node κ) → List (Node μ)
  | [] => []
  | .text s :: ns => .text s :: mapCallbacksAmong f ns
  | .element e :: ns => .element (mapCallbacks f e) :: mapCallbacksAmong f ns

end

end Element

end Transclude.Output
