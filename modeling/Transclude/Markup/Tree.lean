/-
From the events of a document to its tree.

The open elements are a stack; each event changes its top.  Texts that follow one another inside an
element are one text, also across comments.  Outside of the root element only blank text may stand.

* `Builder.step` — one event;
* `parse` — the root element of a document, or the first fault in it.
-/
import Transclude.Markup.Event
import Transclude.Markup.Node
import Transclude.Text.Blank

namespace Transclude.Markup

/-- The children with one more text; it joins a text at their end. -/
def addText (s : String) : List Node → List Node
  | [] => [.text s]
  | [.text t] => [.text (t ++ s)]
  | [.element e] => [.element e, .text s]
  | n :: m :: ns => n :: addText s (m :: ns)

/-- The open elements, innermost first, and the root element once it is closed. -/
structure Builder where
  opened : List Element
  root : Option Element

namespace Builder

/-- Before any event. -/
def start : Builder := ⟨[], none⟩

/-- Puts a finished element into its parent, or makes it the root. -/
def attach (b : Builder) (e : Element) (position : Nat) : Except ParseError Builder :=
  match b.opened with
  | parent :: outer =>
    .ok { b with opened := { parent with children := parent.children ++ [.element e] } :: outer }
  | [] =>
    match b.root with
    | none => .ok { b with root := some e }
    | some _ => .error ⟨position, .secondRoot e.name⟩

/-- Puts a text into the innermost open element. -/
def put (b : Builder) (s : String) (position : Nat) : Except ParseError Builder :=
  match b.opened with
  | parent :: outer =>
    .ok { b with opened := { parent with children := addText s parent.children } :: outer }
  | [] => if Text.allBlank s.toList then .ok b else .error ⟨position, .textOutsideRoot⟩

/-- Takes one more event. -/
def step (b : Builder) (e : Located) : Except ParseError Builder :=
  match e.event with
  | .opening name attrs => .ok { b with opened := ⟨name, attrs, []⟩ :: b.opened }
  | .empty name attrs => b.attach ⟨name, attrs, []⟩ e.position
  | .closing =>
    match b.opened with
    | top :: outer => attach { b with opened := outer } top e.position
    | [] => .error ⟨e.position, .unexpectedEnd⟩
  | .text s => b.put s e.position
  | .cdata s => b.put s e.position
  | .other => .ok b

/-- Takes more events. -/
def run (b : Builder) : List Located → Except ParseError Builder
  | [] => .ok b
  | e :: es =>
    match b.step e with
    | .error e => .error e
    | .ok b' => b'.run es

/-- The root element, once the text of `length` bytes is at its end. -/
def finish (b : Builder) (length : Nat) : Except ParseError Element :=
  match b.opened with
  | top :: _ => .error ⟨length, .unclosedElement top.name⟩
  | [] =>
    match b.root with
    | some e => .ok e
    | none => .error ⟨0, .noRoot⟩

end Builder

/-- The tree of a list of events, in a text of `length` bytes. -/
def ofEvents (length : Nat) (es : List Located) : Except ParseError Element :=
  match Builder.start.run es with
  | .error e => .error e
  | .ok b => b.finish length

/-- The root element of a document. -/
def parse (text : String) : Except ParseError Element :=
  let (es, fault) := events text.toList
  match Builder.start.run es with
  | .error e => .error e
  | .ok b =>
    match fault with
    | some e => .error e
    | none => b.finish (Text.byteLength text.toList)

end Transclude.Markup
