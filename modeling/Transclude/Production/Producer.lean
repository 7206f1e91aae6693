/-
Producing output from snippets.

A fragment is copied element by element: attributes and texts with their placeholders replaced, and
texts of blanks alone left out.  Elements of the reserved namespace that are directives are not
copied but carried out: a conditional, a loop over a list, a call of an owner function, and the
insertion of another snippet.  Reserved attributes bind owner functions to events or name the one to
call when the element is finished.

* `Producer.produce` — a snippet in a context;
* `Producer.appendNode` — what one node of a fragment appends to the element around it;
* `produceAt_eq_build`, `produce_eq_build` — within the limit a snippet is built from its fragment.

Design notes: inside one fragment the recursion follows the tree.  From one snippet to an inserted
one it follows the depth, which ends at the limit (`produceAt`); the functions in between take the
production of inserted snippets as a parameter.
-/
import Transclude.Condition.Evaluate
import Transclude.Interpolation
import Transclude.Production.Outcome
import Transclude.Registry

namespace Transclude

open Production (Outcome)

/-- The directives of the reserved namespace. -/
inductive Directive where
  | conditional
  | loop
  | call
  | insertion
  deriving DecidableEq

/-- The directive with this local name. -/
def Directive.ofLocalName? : String → Option Directive
  | "if" => some .conditional
  | "for-each" => some .loop
  | "call-function" => some .call
  | "insert-snippet" => some .insertion
  | _ => none

/-- A reserved attribute. -/
inductive ReservedAttribute where
  /-- It names the function to call when the element is finished. -/
  | postproduction
  /-- It names the function to bind to an event. -/
  | handler (event : String)
  deriving DecidableEq

/-- The reserved attribute with this local name: `postproduction`, or `on` and an event. -/
def ReservedAttribute.ofLocalName? (localName : String) : Option ReservedAttribute :=
  if localName = "postproduction" then some .postproduction
  else
    match localName.toList with
    | 'o' :: 'n' :: c :: cs => some (.handler (String.ofList (c :: cs)))
    | _ => none

/-- All that a production depends on but the snippet and its context. -/
structure Producer (κ : Type) where
  registry : Registry
  reserved : Namespace
  maxDepth : Nat
  owner : Owner κ

namespace Producer

variable {κ : Type}

/-- The producer with the settings of a configuration. -/
def ofConfig (registry : Registry) (config : Config) (owner : Owner κ) : Producer κ :=
  ⟨registry, config.reserved, config.maxDepth, owner⟩

/-- The directive that an element with this name is. -/
def directive? (p : Producer κ) (name : String) : Option Directive :=
  (p.reserved.localName? name).bind Directive.ofLocalName?

/-- The reserved attribute that an attribute with this name is. -/
def reservedAttribute? (p : Producer κ) (name : String) : Option ReservedAttribute :=
  (p.reserved.localName? name).bind ReservedAttribute.ofLocalName?

/-- Production of an inserted snippet, by its name and its context. -/
abbrev Insert (κ : Type) := String → Value → Outcome κ (Output.Element κ)

/-! ### Attributes -/

/-- Copies one attribute onto an element; a reserved one binds a function or does nothing here. -/
def copyAttribute (p : Producer κ) (context : Value) (e : Output.Element κ)
    (a : String × String) : Outcome κ (Output.Element κ) :=
  match p.reservedAttribute? a.1 with
  | some .postproduction => .ok e
  | some (.handler event) =>
    match p.owner.get? a.2 with
    | some f => .ok (e.bind event a.2 f)
    | none => .warn (.undefinedHandler a.2 event) e
  | none => .ok (e.setAttribute a.1 (Interpolation.interpolate a.2 context))

/-- Copies attributes onto an element. -/
def copyAttributes (p : Producer κ) (context : Value) (e : Output.Element κ) :
    List (String × String) → Outcome κ (Output.Element κ)
  | [] => .ok e
  | a :: as => do
    let e' ← p.copyAttribute context e a
    copyAttributes p context e' as

/-- The function to call when an element with these attributes is finished: the last one named. -/
def postproduction? (p : Producer κ) (attributes : List (String × String)) : Option String :=
  (attributes.filter fun a => p.reservedAttribute? a.1 == some .postproduction).getLast?.map
    Prod.snd

/-- Calls the function for a finished element. -/
def finishElement (p : Producer κ) (attributes : List (String × String)) (context : Value)
    (e : Output.Element κ) : Outcome κ (Output.Element κ) :=
  match p.postproduction? attributes with
  | none => .ok e
  | some function =>
    match p.owner.call? function context e with
    | some (e', calls) => .called calls e'
    | none => .warn (.undefinedPostproduction function) e

/-! ### Directives -/

/-- The first value of an attribute. -/
def attributeOf? (attributes : List (String × String)) (name : String) : Option String :=
  (attributes.find? (fun a => a.1 == name)).map Prod.snd

/-- Whether the test of a conditional holds; a missing test is the empty text. -/
def testHolds (attributes : List (String × String)) (context : Value) : Outcome κ Bool :=
  let test := Interpolation.interpolateTest ((attributeOf? attributes "test").getD "") context
  match Condition.holds test.toList context with
  | .ok b => .ok b
  | .error cause => .fail (.condition test cause)

/-- The list that a loop goes over; `none` after a warning if there is none. -/
def loopItems (name : String) (attributes : List (String × String)) (context : Value) :
    Outcome κ (List Value) :=
  match attributeOf? attributes "list" with
  | none => .warn (.listless name) []
  | some key =>
    match context.lookup? key.toList with
    | some (.array items) => .ok items
    | some v => .warn (.notAList key v.kind) []
    | none => .warn (.undefinedList key) []

/-- Calls the function that a directive names on the element around it. -/
def callFunction (p : Producer κ) (name : String) (attributes : List (String × String))
    (context : Value) (target : Output.Element κ) : Outcome κ (Output.Element κ) :=
  match attributeOf? attributes "name" with
  | none => .warn (.nameless name) target
  | some function =>
    match p.owner.call? function context target with
    | some (target', calls) => .called calls target'
    | none => .warn (.undefinedFunction function) target

/-- Appends the snippet that a directive names. -/
def insertSnippet (insert : Insert κ) (name : String) (attributes : List (String × String))
    (context : Value) (target : Output.Element κ) : Outcome κ (Output.Element κ) :=
  match attributeOf? attributes "name" with
  | none => .warn (.nameless name) target
  | some snippet => do
    let e ← insert (Interpolation.interpolate snippet context) context
    return target.append (.element e)

/-- Appends for every item of a list, one after the other. -/
def forEach (append : Value → Output.Element κ → Outcome κ (Output.Element κ)) :
    List Value → Output.Element κ → Outcome κ (Output.Element κ)
  | [], target => .ok target
  | item :: items, target => do
    let target' ← append item target
    forEach append items target'

/-! ### Fragments -/

/-- Whether one of some nodes is an element with a name. -/
def hasNamed (tag : String) (nodes : List Markup.Node) : Bool :=
  nodes.any fun n => n.element?.any fun e => e.name == tag

mutual

/-- Copies an element: its attributes, then its children, then the call for the finished element. -/
def build (p : Producer κ) (insert : Insert κ) :
    Markup.Element → Value → Outcome κ (Output.Element κ)
  | ⟨name, attributes, children⟩, context => do
    let e ← p.copyAttributes context ⟨name, [], [], []⟩ attributes
    let e' ← appendNodes p insert children context e
    p.finishElement attributes context e'

/-- Appends what a node of a fragment stands for. -/
def appendNode (p : Producer κ) (insert : Insert κ) :
    Markup.Node → Value → Output.Element κ → Outcome κ (Output.Element κ)
  | .text s, context, target =>
    if Text.allBlank s.toList then .ok target
    else .ok (target.append (.text (Interpolation.interpolate s context)))
  | .element ⟨name, attributes, children⟩, context, target =>
    match p.directive? name with
    | none => do
      let e ← build p insert ⟨name, attributes, children⟩ context
      return target.append (.element e)
    | some .conditional => do
      let holds ← testHolds attributes context
      if holds then
        if hasNamed (p.reserved.qualify "then") children then
          appendNamed p insert (p.reserved.qualify "then") children context target
        else appendOthers p insert (p.reserved.qualify "else") children context target
      else appendNamed p insert (p.reserved.qualify "else") children context target
    | some .loop => do
      let items ← loopItems name attributes context
      forEach (fun item target => appendNodes p insert children item target) items target
    | some .call => p.callFunction name attributes context target
    | some .insertion => insertSnippet insert name attributes context target

/-- Appends what the nodes of a fragment stand for, one after the other. -/
def appendNodes (p : Producer κ) (insert : Insert κ) :
    List Markup.Node → Value → Output.Element κ → Outcome κ (Output.Element κ)
  | [], _, target => .ok target
  | n :: ns, context, target => do
    let target' ← appendNode p insert n context target
    appendNodes p insert ns context target'

/-- Appends what the children of the first element with a name stand for, if there is one. -/
def appendNamed (p : Producer κ) (insert : Insert κ) (tag : String) :
    List Markup.Node → Value → Output.Element κ → Outcome κ (Output.Element κ)
  | [], _, target => .ok target
  | .text _ :: ns, context, target => appendNamed p insert tag ns context target
  | .element ⟨name, _, children⟩ :: ns, context, target =>
    if name = tag then appendNodes p insert children context target
    else appendNamed p insert tag ns context target

/-- Appends what all nodes stand for that are not elements with a name. -/
def appendOthers (p : Producer κ) (insert : Insert κ) (tag : String) :
    List Markup.Node → Value → Output.Element κ → Outcome κ (Output.Element κ)
  | [], _, target => .ok target
  | .text s :: ns, context, target => do
    let target' ← appendNode p insert (.text s) context target
    appendOthers p insert tag ns context target'
  | .element ⟨name, attributes, children⟩ :: ns, context, target =>
    if name = tag then appendOthers p insert tag ns context target
    else do
      let target' ← appendNode p insert (.element ⟨name, attributes, children⟩) context target
      appendOthers p insert tag ns context target'

end

/-! ### The forms of nodes

What each form of nodes is carried out as, as an equation of steps. -/

section

variable (p : Producer κ) (insert : Insert κ) (context : Value)

theorem appendNode_blank {s : String} (h : Text.allBlank s.toList = true) :
    p.appendNode insert (.text s) context = .ok := by
  funext target
  rw [appendNode, if_pos h]

theorem appendNode_text {s : String} (h : ¬Text.allBlank s.toList = true) :
    p.appendNode insert (.text s) context =
      fun target => .ok (target.append (.text (Interpolation.interpolate s context))) := by
  funext target
  rw [appendNode, if_neg h]

theorem appendNode_literal {name : String} (h : p.directive? name = none)
    (attributes : List (String × String)) (children : List Markup.Node) :
    p.appendNode insert (.element ⟨name, attributes, children⟩) context =
      fun target => (p.build insert ⟨name, attributes, children⟩ context).andThen
        fun e => .ok (target.append (.element e)) := by
  funext target
  rw [appendNode, h]
  rfl

/-- What a conditional appends when its test holds, and when it does not. -/
def branch (children : List Markup.Node) (holds : Bool) :
    Output.Element κ → Outcome κ (Output.Element κ) :=
  if holds then
    if hasNamed (p.reserved.qualify "then") children then
      p.appendNamed insert (p.reserved.qualify "then") children context
    else p.appendOthers insert (p.reserved.qualify "else") children context
  else p.appendNamed insert (p.reserved.qualify "else") children context

theorem appendNode_conditional {name : String} (h : p.directive? name = some .conditional)
    (attributes : List (String × String)) (children : List Markup.Node) :
    p.appendNode insert (.element ⟨name, attributes, children⟩) context =
      fun target => (testHolds attributes context).andThen
        fun holds => p.branch insert context children holds target := by
  funext target
  rw [appendNode, h, Production.Outcome.bind_eq]
  refine congrArg (testHolds attributes context).andThen (funext fun holds => ?_)
  cases holds with
  | false => rfl
  | true =>
    simp only [branch, if_true]
    split <;> rfl

theorem appendNode_loop {name : String} (h : p.directive? name = some .loop)
    (attributes : List (String × String)) (children : List Markup.Node) :
    p.appendNode insert (.element ⟨name, attributes, children⟩) context =
      fun target => (loopItems name attributes context).andThen
        fun items => forEach (p.appendNodes insert children) items target := by
  funext target
  rw [appendNode, h]
  rfl

theorem appendNode_call {name : String} (h : p.directive? name = some .call)
    (attributes : List (String × String)) (children : List Markup.Node) :
    p.appendNode insert (.element ⟨name, attributes, children⟩) context =
      p.callFunction name attributes context := by
  funext target
  rw [appendNode, h]

theorem appendNode_insertion {name : String} (h : p.directive? name = some .insertion)
    (attributes : List (String × String)) (children : List Markup.Node) :
    p.appendNode insert (.element ⟨name, attributes, children⟩) context =
      insertSnippet insert name attributes context := by
  funext target
  rw [appendNode, h]

theorem appendNodes_nil : p.appendNodes insert [] context = .ok := by
  funext target
  rw [appendNodes]

theorem appendNodes_cons (n : Markup.Node) (ns : List Markup.Node) :
    p.appendNodes insert (n :: ns) context =
      fun target => (p.appendNode insert n context target).andThen
        (p.appendNodes insert ns context) := by
  funext target
  rw [appendNodes]
  rfl

theorem appendNamed_nil (tag : String) : p.appendNamed insert tag [] context = .ok := by
  funext target
  rw [appendNamed]

theorem appendNamed_text (tag s : String) (ns : List Markup.Node) :
    p.appendNamed insert tag (.text s :: ns) context = p.appendNamed insert tag ns context := by
  funext target
  rw [appendNamed]

theorem appendNamed_element (tag name : String) (attributes : List (String × String))
    (children ns : List Markup.Node) :
    p.appendNamed insert tag (.element ⟨name, attributes, children⟩ :: ns) context =
      if name = tag then p.appendNodes insert children context
      else p.appendNamed insert tag ns context := by
  funext target
  rw [appendNamed]
  split <;> rfl

theorem appendOthers_nil (tag : String) : p.appendOthers insert tag [] context = .ok := by
  funext target
  rw [appendOthers]

theorem appendOthers_text (tag s : String) (ns : List Markup.Node) :
    p.appendOthers insert tag (.text s :: ns) context =
      fun target => (p.appendNode insert (.text s) context target).andThen
        (p.appendOthers insert tag ns context) := by
  funext target
  rw [appendOthers]
  rfl

theorem appendOthers_element (tag name : String) (attributes : List (String × String))
    (children ns : List Markup.Node) :
    p.appendOthers insert tag (.element ⟨name, attributes, children⟩ :: ns) context =
      if name = tag then p.appendOthers insert tag ns context
      else fun target =>
        (p.appendNode insert (.element ⟨name, attributes, children⟩) context target).andThen
          (p.appendOthers insert tag ns context) := by
  funext target
  rw [appendOthers]
  split <;> rfl

end

/-! ### Snippets -/

/-- Produces a snippet at a depth, the number of insertions that lead to it; beyond the limit there
is none. -/
def produceAt (p : Producer κ) (depth : Nat) : Insert κ := fun name context =>
  if p.maxDepth < depth then .fail (.nestedTooDeeply name depth)
  else
    match p.registry.get? name with
    | none => .fail (.unknownSnippet name)
    | some fragment => p.build (p.produceAt (depth + 1)) fragment context
termination_by p.maxDepth + 1 - depth

/-- Within the limit a registered snippet is built from its fragment. -/
theorem produceAt_eq_build (p : Producer κ) {depth : Nat} {name : String}
    {fragment : Markup.Element} (hdepth : depth ≤ p.maxDepth)
    (hfragment : p.registry.get? name = some fragment) (context : Value) :
    p.produceAt depth name context = p.build (p.produceAt (depth + 1)) fragment context := by
  rw [produceAt, if_neg (Nat.not_lt.mpr hdepth), hfragment]

/-- Produces a snippet in a context. -/
def produce (p : Producer κ) (name : String) (context : Value) :
    Outcome κ (Output.Element κ) :=
  p.produceAt 0 name context

/-- A snippet is built with what is known of a snippet that it inserts. -/
theorem produce_eq_build (p : Producer κ) {name inserted : String} {fragment : Markup.Element}
    (hfragment : p.registry.get? name = some fragment)
    {produced : Value → Outcome κ (Output.Element κ)}
    (hinserted : ∀ context, p.produceAt 1 inserted context = produced context) (context : Value) :
    p.produce name context =
      p.build (fun n c => if n = inserted then produced c else p.produceAt 1 n c) fragment
        context := by
  have hinsert : p.produceAt 1 =
      fun n c => if n = inserted then produced c else p.produceAt 1 n c := by
    funext n c
    by_cases hn : n = inserted
    · rw [if_pos hn, hn, hinserted]
    · rw [if_neg hn]
  rw [produce, p.produceAt_eq_build (Nat.zero_le _) hfragment, ← hinsert]

end Producer

end Transclude
