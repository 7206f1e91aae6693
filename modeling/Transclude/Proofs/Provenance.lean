/-
Where produced elements come from.

What is produced does not tell which element of which fragment it was built from, nor in which
context.  Here both are kept: a built element carries its source and its context, and what it holds
is in the order in which it was put there, with the calls of directives in between.

* `Producer.action?` — what a node of a fragment asks for in a context;
* `Producer.Unfolds`, `Producer.Builds` — what some nodes, each in its context, come to, and how an
  element is built from a source;
* `Unfolds.unique`, `Builds.unique` — nodes come to one list of parts, and a source to one element;
* `Built.origins` — everything that was built, in post-order;
* `Built.map_element_origins` — these are the subtrees of the built element in post-order.

Design notes: a conditional, a loop and a list of nodes put further nodes in front of those that
wait, so that a repetition is a longer list.  The relation has no depth: that production ends is
what makes a derivation of it finite.
-/
import Transclude.Proofs.Negation

namespace Transclude

/-! ### Post-order -/

namespace Output.Element

variable {κ : Type}

mutual

/-- The elements of a tree in post-order: each comes after what it contains. -/
def postorder : Element κ → List (Element κ)
  | ⟨tag, attributes, children, handlers⟩ =>
    postorderAmong children ++ [⟨tag, attributes, children, handlers⟩]

/-- The elements among some nodes and below them, in post-order. -/
def postorderAmong : List (Node κ) → List (Element κ)
  | [] => []
  | .text _ :: ns => postorderAmong ns
  | .element e :: ns => postorder e ++ postorderAmong ns

end

end Output.Element

/-! ### Built elements -/

namespace Production

mutual

/-- An element that was built, with the element of a fragment that it was built from and the context
it was built in. -/
structure Built (κ : Type) where
  source : Markup.Element
  context : Value
  /-- The element with its attributes and handlers, before it has children. -/
  shell : Output.Element κ
  content : List (Built.Part κ)

/-- What was put into an element, or done to it, at one point. -/
inductive Built.Part (κ : Type) where
  | text (s : String)
  /-- A directive named a function to call on the element as it was then. -/
  | call (function : String) (context : Value)
  | element (b : Built κ)

end

/-- An element of output with its source and its context. -/
structure Origin (κ : Type) where
  source : Markup.Element
  context : Value
  element : Output.Element κ

namespace Built

variable {κ : Type}

mutual

/-- The element of output that was built. -/
def element : Built κ → Output.Element κ
  | ⟨_, _, shell, content⟩ => { shell with children := nodesAmong content }

/-- The nodes among some parts. -/
def nodesAmong : List (Part κ) → List (Output.Node κ)
  | [] => []
  | .text s :: ps => .text s :: nodesAmong ps
  | .call _ _ :: ps => nodesAmong ps
  | .element b :: ps => .element (element b) :: nodesAmong ps

end

/-- The element of output that was built, with its source and its context. -/
def origin (b : Built κ) : Origin κ := ⟨b.source, b.context, b.element⟩

mutual

/-- All that was built for an element, in post-order. -/
def origins : Built κ → List (Origin κ)
  | ⟨source, context, shell, content⟩ =>
    originsAmong content ++ [origin ⟨source, context, shell, content⟩]

/-- All that was built for some parts, in post-order. -/
def originsAmong : List (Part κ) → List (Origin κ)
  | [] => []
  | .text _ :: ps => originsAmong ps
  | .call _ _ :: ps => originsAmong ps
  | .element b :: ps => origins b ++ originsAmong ps

end

open Output.Element (postorder postorderAmong)

mutual

/-- Every subtree was built, and they were built in post-order. -/
theorem map_element_origins : ∀ b : Built κ,
    b.origins.map Origin.element = b.element.postorder
  | ⟨source, context, shell, content⟩ => by
    rw [origins, List.map_append, map_element_originsAmong content, element, postorder]
    rfl

theorem map_element_originsAmong : ∀ ps : List (Part κ),
    (originsAmong ps).map Origin.element = postorderAmong (nodesAmong ps)
  | [] => rfl
  | .text s :: ps => by
    rw [originsAmong, nodesAmong, postorderAmong, map_element_originsAmong ps]
  | .call function context :: ps => by
    rw [originsAmong, nodesAmong, map_element_originsAmong ps]
  | .element b :: ps => by
    rw [originsAmong, nodesAmong, postorderAmong, List.map_append, map_element_origins b,
      map_element_originsAmong ps]

end

theorem nodesAmong_append (ps qs : List (Part κ)) :
    nodesAmong (ps ++ qs) = nodesAmong ps ++ nodesAmong qs := by
  induction ps with
  | nil => rfl
  | cons part ps ih =>
    cases part with
    | text s => rw [List.cons_append, nodesAmong, nodesAmong, ih, List.cons_append]
    | call function context => rw [List.cons_append, nodesAmong, nodesAmong, ih]
    | element b => rw [List.cons_append, nodesAmong, nodesAmong, ih, List.cons_append]

end Built

end Production

/-! ### Unfolding -/

/-- The nodes in the first child element with a name. -/
def Markup.Element.contentsNamed (e : Element) (tag : String) : List Node :=
  ((e.childNamed? tag).map fun c => c.children).getD []

@[simp] theorem Markup.Element.contentsNamed_text (tag name s : String)
    (attributes : List (String × String)) (ns : List Node) :
    contentsNamed ⟨name, attributes, .text s :: ns⟩ tag =
      contentsNamed ⟨name, attributes, ns⟩ tag := rfl

theorem Markup.Element.contentsNamed_element (tag name : String)
    (attributes : List (String × String)) (e : Element) (ns : List Node) :
    contentsNamed ⟨name, attributes, .element e :: ns⟩ tag =
      if e.name = tag then e.children else contentsNamed ⟨name, attributes, ns⟩ tag := by
  rw [contentsNamed, Producer.childNamed?_element]
  split <;> rfl

/-- What a node of a fragment asks for. -/
inductive Action where
  | text (s : String)
  | call (function : String)
  | build (source : Markup.Element)
  /-- Further nodes, each in its context, are carried out instead. -/
  | go (work : List (Markup.Node × Value))

namespace Producer

open Production (Outcome Built)

variable {κ : Type}

/-- Nodes that are all in one context. -/
def inContext (context : Value) (ns : List Markup.Node) : List (Markup.Node × Value) :=
  ns.map fun n => (n, context)

/-- The nodes that a conditional chooses when its test holds, and when it does not. -/
def chosen (p : Producer κ) (e : Markup.Element) (holds : Bool) : List Markup.Node :=
  if holds then
    if hasNamed (p.reserved.qualify "then") e.children then
      e.contentsNamed (p.reserved.qualify "then")
    else
      e.children.filter fun n => !n.element?.any fun c => c.name == p.reserved.qualify "else"
  else e.contentsNamed (p.reserved.qualify "else")

/-- What a node of a fragment asks for in a context; `none` if it is an error. -/
def action? (p : Producer κ) (context : Value) : Markup.Node → Option Action
  | .text s =>
    if Text.allBlank s.toList then some (.go [])
    else some (.text (Interpolation.interpolate s context))
  | .element e =>
    match p.directive? e.name with
    | none => some (.build e)
    | some .conditional =>
      match (testHolds e.attributes context : Outcome κ Bool).result with
      | .ok holds => some (.go (inContext context (p.chosen e holds)))
      | .error _ => none
    | some .loop =>
      match (loopItems e.name e.attributes context : Outcome κ (List Value)).result with
      | .ok items => some (.go (items.flatMap fun item => inContext item e.children))
      | .error _ => none
    | some .call =>
      match attributeOf? e.attributes "name" with
      | none => some (.go [])
      | some function => some (.call function)
    | some .insertion =>
      match attributeOf? e.attributes "name" with
      | none => some (.go [])
      | some snippet =>
        (p.registry.get? (Interpolation.interpolate snippet context)).map .build

/-- What nodes come to that are carried out one after the other, each in its context. -/
inductive Unfolds (p : Producer κ) : List (Markup.Node × Value) → List (Built.Part κ) → Prop
  | nil : Unfolds p [] []
  | text {n : Markup.Node} {context : Value} {work : List (Markup.Node × Value)}
      {parts : List (Built.Part κ)} {s : String} (h : p.action? context n = some (.text s))
      (hrest : Unfolds p work parts) : Unfolds p ((n, context) :: work) (.text s :: parts)
  | call {n : Markup.Node} {context : Value} {work : List (Markup.Node × Value)}
      {parts : List (Built.Part κ)} {function : String}
      (h : p.action? context n = some (.call function)) (hrest : Unfolds p work parts) :
      Unfolds p ((n, context) :: work) (.call function context :: parts)
  | build {n : Markup.Node} {context : Value} {work : List (Markup.Node × Value)}
      {parts : List (Built.Part κ)} {source : Markup.Element} {shell : Output.Element κ}
      {content : List (Built.Part κ)} (h : p.action? context n = some (.build source))
      (hshell : (p.copyAttributes context ⟨source.name, [], [], []⟩ source.attributes).result =
        .ok shell)
      (hcontent : Unfolds p (inContext context source.children) content)
      (hrest : Unfolds p work parts) :
      Unfolds p ((n, context) :: work) (.element ⟨source, context, shell, content⟩ :: parts)
  | go {n : Markup.Node} {context : Value} {work todo : List (Markup.Node × Value)}
      {parts : List (Built.Part κ)} (h : p.action? context n = some (.go todo))
      (hrest : Unfolds p (todo ++ work) parts) : Unfolds p ((n, context) :: work) parts

/-- Whether a source in a context is built as `b`: its attributes are copied, and its children
unfold to the content. -/
structure Builds (p : Producer κ) (source : Markup.Element) (context : Value) (b : Built κ) :
    Prop where
  source_eq : b.source = source
  context_eq : b.context = context
  copied : (p.copyAttributes context ⟨source.name, [], [], []⟩ source.attributes).result =
    .ok b.shell
  unfolds : p.Unfolds (inContext context source.children) b.content

variable {p : Producer κ}

theorem Unfolds.append {work later : List (Markup.Node × Value)} {parts more : List (Built.Part κ)}
    (h : p.Unfolds work parts) (hlater : p.Unfolds later more) :
    p.Unfolds (work ++ later) (parts ++ more) := by
  induction h with
  | nil => exact hlater
  | text h _ ih => exact .text h ih
  | call h _ ih => exact .call h ih
  | build h hshell hcontent _ _ ih => exact .build h hshell hcontent ih
  | go h _ ih =>
    rw [List.append_assoc] at ih
    exact .go h ih

/-- What a node asks for decides what comes of it. -/
theorem Unfolds.unique {work : List (Markup.Node × Value)} {parts others : List (Built.Part κ)}
    (h : p.Unfolds work parts) (hothers : p.Unfolds work others) : others = parts := by
  -- the other derivation looks at the same node first, so it ends in the same rule
  induction h generalizing others with
  | nil =>
    cases hothers
    rfl
  | text h _ ih =>
    cases hothers with
    | text h' hrest =>
      rw [h] at h'
      cases h'
      rw [ih hrest]
    | call h' => cases h.symm.trans h'
    | build h' => cases h.symm.trans h'
    | go h' => cases h.symm.trans h'
  | call h _ ih =>
    cases hothers with
    | call h' hrest =>
      rw [h] at h'
      cases h'
      rw [ih hrest]
    | text h' => cases h.symm.trans h'
    | build h' => cases h.symm.trans h'
    | go h' => cases h.symm.trans h'
  | build h hshell _ _ ihcontent ih =>
    cases hothers with
    | build h' hshell' hcontent hrest =>
      rw [h] at h'
      cases h'
      rw [hshell] at hshell'
      cases hshell'
      rw [ihcontent hcontent, ih hrest]
    | text h' => cases h.symm.trans h'
    | call h' => cases h.symm.trans h'
    | go h' => cases h.symm.trans h'
  | go h _ ih =>
    cases hothers with
    | go h' hrest =>
      rw [h] at h'
      cases h'
      exact ih hrest
    | text h' => cases h.symm.trans h'
    | call h' => cases h.symm.trans h'
    | build h' => cases h.symm.trans h'

/-- A source in a context is built as one element. -/
theorem Builds.unique {source : Markup.Element} {context : Value} {b other : Built κ}
    (h : p.Builds source context b) (hother : p.Builds source context other) : other = b := by
  have hshell : other.shell = b.shell := Except.ok.inj (hother.copied.symm.trans h.copied)
  have hcontent : other.content = b.content := h.unfolds.unique hother.unfolds
  have hsource : other.source = b.source := hother.source_eq.trans h.source_eq.symm
  have hcontext : other.context = b.context := hother.context_eq.trans h.context_eq.symm
  obtain ⟨bsource, bcontext, bshell, bcontent⟩ := b
  obtain ⟨osource, ocontext, oshell, ocontent⟩ := other
  rw [Built.mk.injEq]
  exact ⟨hsource, hcontext, hshell, hcontent⟩

end Producer

end Transclude
