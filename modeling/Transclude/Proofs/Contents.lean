/-
Production only appends.

A node of a fragment is carried out on the element around it.  Where no owner function can reach
into that element, all the node does to it is to append children, and what these are depends on the
node and its context alone: not on what the element is, nor on what was appended before.

* `Producer.Appends` — a step appends these nodes, or ends with this error, whatever the element is;
* `Producer.contents` — what a step appends, read off an element that has nothing;
* `appendNode_appends` — every node of a fragment appends its contents, a loop over a list appends the
  contents of its children for one item after the other, and a loop over two lists in a row does
  what it does over each of them in turn.

Design notes: nothing is assumed of the production of inserted snippets, so the statements hold at
every depth and with every registry.  The induction over fragments is about `appendNode` and the
functions that go through lists of nodes; an element that is only copied needs none, as it is built
apart from its target.
-/
import Transclude.Production.Producer

namespace Transclude

namespace Output.Element

variable {κ : Type}

/-- The element with more children. -/
def extend (e : Element κ) (ns : List (Node κ)) : Element κ :=
  { e with children := e.children ++ ns }

@[simp] theorem extend_nil (e : Element κ) : e.extend [] = e := by
  obtain ⟨tag, attributes, children, handlers⟩ := e
  simp [extend]

@[simp] theorem extend_extend (e : Element κ) (ns ms : List (Node κ)) :
    (e.extend ns).extend ms = e.extend (ns ++ ms) := by simp [extend]

end Output.Element

namespace Production.Outcome

variable {κ α : Type}

/-- The results of several outcomes, one list after the other; the first error ends it. -/
def concat : List (Outcome κ (List α)) → Outcome κ (List α)
  | [] => .ok []
  | x :: xs => x.andThen fun as => (concat xs).andThen fun bs => .ok (as ++ bs)

/-- A warning leaves a result that the next step starts from. -/
theorem warn_andThen {β : Type} (w : Warning) (a : α) (f : α → Outcome κ β) :
    (Outcome.warn w a).andThen f = (Outcome.warn w ()).andThen fun _ => f a := rfl

end Production.Outcome

namespace Producer

open Production (Outcome)
open Production.Outcome (andThen_assoc ok_andThen concat)

variable {κ : Type}

/-- What is done to an element. -/
abbrev Step (κ : Type) := Output.Element κ → Outcome κ (Output.Element κ)

/-! ### Steps that append -/

/-- Whether a step appends the nodes that `x` results in, whatever element it is applied to, and
leaves the rest of that element as it is; if `x` is an error, so is the step. -/
def Appends (step : Step κ) (x : Outcome κ (List (Output.Node κ))) : Prop :=
  ∀ target, step target = x.andThen fun ns => .ok (target.extend ns)

/-- What a step appends to an element that has nothing. -/
def contents (step : Step κ) : Outcome κ (List (Output.Node κ)) :=
  (step ⟨"", [], [], []⟩).andThen fun e => .ok e.children

/-- Whether a step appends its contents, whatever element it is applied to. -/
def Appending (step : Step κ) : Prop := Appends step (contents step)

namespace Appends

variable {step next : Step κ} {x y : Outcome κ (List (Output.Node κ))}

/-- What a step appends is what it appends to an element that has nothing. -/
theorem contents_eq (h : Appends step x) : contents step = x := by
  rw [contents, h, andThen_assoc]
  simpa [Output.Element.extend] using x.andThen_ok

theorem appending (h : Appends step x) : Appending step := by
  rw [Appending, h.contents_eq]
  exact h

/-- A step that does nothing appends nothing. -/
theorem nil : Appends (κ := κ) .ok (.ok []) := by
  intro target
  rw [ok_andThen, Output.Element.extend_nil]

/-- A step that only warns appends nothing. -/
theorem warn (w : Warning) : Appends (κ := κ) (.warn w) (.warn w []) := by
  intro target
  rw [Outcome.warn_andThen, Output.Element.extend_nil]
  rfl

/-- A step that appends a single node. -/
theorem single (n : Output.Node κ) : Appends (fun target => .ok (target.append n)) (.ok [n]) := by
  intro target
  rw [ok_andThen]
  rfl

/-- One step after the other appends one list after the other. -/
theorem andThen (hx : Appends step x) (hy : Appends next y) :
    Appends (fun target => (step target).andThen next)
      (x.andThen fun ns => y.andThen fun ms => .ok (ns ++ ms)) := by
  intro target
  have hnext : ∀ ns, next (target.extend ns) =
      y.andThen fun ms => .ok (target.extend (ns ++ ms)) := by
    intro ns
    simp only [hy (target.extend ns), Output.Element.extend_extend]
  simp only [hx target, andThen_assoc, ok_andThen, hnext]

/-- A step that depends on what something else comes to. -/
theorem after {α : Type} (a : Outcome κ α) {step : α → Step κ}
    {x : α → Outcome κ (List (Output.Node κ))} (h : ∀ v, Appends (step v) (x v)) :
    Appends (fun target => a.andThen fun v => step v target) (a.andThen x) := by
  intro target
  simp only [andThen_assoc, h _ target]

/-- A loop appends for one item after the other. -/
theorem forEach {step : Value → Step κ} {x : Value → Outcome κ (List (Output.Node κ))}
    (h : ∀ item, Appends (step item) (x item)) (items : List Value) :
    Appends (forEach step items) (concat (items.map x)) := by
  induction items with
  | nil => exact nil
  | cons item items ih => exact (h item).andThen ih

end Appends

/-- A loop over two lists in a row is the loop over one and then the loop over the other. -/
theorem forEach_append (step : Value → Step κ) (xs ys : List Value) (target : Output.Element κ) :
    forEach step (xs ++ ys) target = (forEach step xs target).andThen (forEach step ys) := by
  induction xs generalizing target with
  | nil => simp [forEach]
  | cons x xs ih => simp [forEach, ih, andThen_assoc]

/-! ### Directives -/

variable {p : Producer κ} {insert : Insert κ}

section

variable {name : String} {attributes : List (String × String)} {context : Value}

theorem callFunction_nameless (p : Producer κ) (h : attributeOf? attributes "name" = none) :
    p.callFunction name attributes context = .warn (.nameless name) := by
  funext target
  rw [callFunction, h]

theorem insertSnippet_nameless (insert : Insert κ) (h : attributeOf? attributes "name" = none) :
    insertSnippet insert name attributes context = .warn (.nameless name) := by
  funext target
  rw [insertSnippet, h]

theorem insertSnippet_named (insert : Insert κ) {snippet : String}
    (h : attributeOf? attributes "name" = some snippet) :
    insertSnippet insert name attributes context = fun target =>
      (insert (Interpolation.interpolate snippet context) context).andThen fun e =>
        .ok (target.append (.element e)) := by
  funext target
  rw [insertSnippet, h]
  rfl

end

/-- Without functions a call leaves the element around it as it is. -/
theorem appending_callFunction (hp : p.owner.functions = []) (name : String)
    (attributes : List (String × String)) (context : Value) :
    Appending (p.callFunction name attributes context) := by
  cases hname : attributeOf? attributes "name" with
  | none =>
    rw [callFunction_nameless p hname]
    exact (Appends.warn _).appending
  | some function =>
    have hcall : p.callFunction name attributes context = .warn (.undefinedFunction function) := by
      funext target
      simp [callFunction, hname, Owner.call?, Owner.get?, hp]
    rw [hcall]
    exact (Appends.warn _).appending

/-- An inserted snippet is one more child. -/
theorem appending_insertSnippet (insert : Insert κ) (name : String)
    (attributes : List (String × String)) (context : Value) :
    Appending (insertSnippet insert name attributes context) := by
  cases hname : attributeOf? attributes "name" with
  | none =>
    rw [insertSnippet_nameless insert hname]
    exact (Appends.warn _).appending
  | some snippet =>
    rw [insertSnippet_named insert hname]
    exact (Appends.after _ fun e => .single (.element e)).appending

/-- Whatever a conditional chooses is appended. -/
theorem appending_branch {children : List Markup.Node} {context : Value}
    (hnamed : ∀ tag, Appending (p.appendNamed insert tag children context))
    (hothers : ∀ tag, Appending (p.appendOthers insert tag children context)) (holds : Bool) :
    Appending (p.branch insert context children holds) := by
  rw [branch]
  split
  · split
    · exact hnamed _
    · exact hothers _
  · exact hnamed _

/-! ### Fragments -/

mutual

/-- Whatever a node stands for is appended. -/
theorem appending_node (hp : p.owner.functions = []) : ∀ (n : Markup.Node) (context : Value),
    Appending (p.appendNode insert n context)
  | .text s, context => by
    by_cases hs : Text.allBlank s.toList = true
    · rw [appendNode_blank p insert context hs]
      exact Appends.nil.appending
    · rw [appendNode_text p insert context hs]
      exact (Appends.single _).appending
  | .element ⟨name, attributes, children⟩, context => by
    cases hname : p.directive? name with
    | none =>
      rw [appendNode_literal p insert context hname]
      exact (Appends.after _ fun e => .single (.element e)).appending
    | some directive =>
      cases directive with
      | conditional =>
        rw [appendNode_conditional p insert context hname]
        exact (Appends.after _ (appending_branch (fun tag => appending_named hp tag children context)
          fun tag => appending_others hp tag children context)).appending
      | loop =>
        rw [appendNode_loop p insert context hname]
        exact (Appends.after _
          (Appends.forEach fun item => appending_nodes hp children item)).appending
      | call =>
        rw [appendNode_call p insert context hname]
        exact appending_callFunction hp name attributes context
      | insertion =>
        rw [appendNode_insertion p insert context hname]
        exact appending_insertSnippet insert name attributes context

/-- Whatever some nodes stand for is appended. -/
theorem appending_nodes (hp : p.owner.functions = []) :
    ∀ (ns : List Markup.Node) (context : Value),
      Appending (p.appendNodes insert ns context)
  | [], context => by
    rw [appendNodes_nil]
    exact Appends.nil.appending
  | n :: ns, context => by
    rw [appendNodes_cons]
    exact ((appending_node hp n context).andThen (appending_nodes hp ns context)).appending

/-- Whatever the children of the first element with a name stand for is appended. -/
theorem appending_named (hp : p.owner.functions = []) (tag : String) :
    ∀ (ns : List Markup.Node) (context : Value),
      Appending (p.appendNamed insert tag ns context)
  | [], context => by
    rw [appendNamed_nil]
    exact Appends.nil.appending
  | .text s :: ns, context => by
    rw [appendNamed_text]
    exact appending_named hp tag ns context
  | .element ⟨name, attributes, children⟩ :: ns, context => by
    rw [appendNamed_element]
    split
    · exact appending_nodes hp children context
    · exact appending_named hp tag ns context

/-- Whatever the nodes stand for that are not elements with a name is appended. -/
theorem appending_others (hp : p.owner.functions = []) (tag : String) :
    ∀ (ns : List Markup.Node) (context : Value),
      Appending (p.appendOthers insert tag ns context)
  | [], context => by
    rw [appendOthers_nil]
    exact Appends.nil.appending
  | .text s :: ns, context => by
    rw [appendOthers_text]
    exact ((appending_node hp (.text s) context).andThen
      (appending_others hp tag ns context)).appending
  | .element ⟨name, attributes, children⟩ :: ns, context => by
    rw [appendOthers_element]
    split
    · exact appending_others hp tag ns context
    · exact ((appending_node hp (.element ⟨name, attributes, children⟩) context).andThen
        (appending_others hp tag ns context)).appending

end

/-- A loop over a list carries out its children for one item after the other. -/
theorem appendNode_loop_items (insert : Insert κ) {name key : String}
    {attributes : List (String × String)} {context : Value} {items : List Value}
    (hname : p.directive? name = some .loop) (hkey : attributeOf? attributes "list" = some key)
    (hitems : context.lookup? key.toList = some (.array items)) (children : List Markup.Node) :
    p.appendNode insert (.element ⟨name, attributes, children⟩) context =
      forEach (p.appendNodes insert children) items := by
  rw [appendNode_loop p insert context hname]
  funext target
  simp [loopItems, hkey, hitems]

/-- **Production only appends.**  Without owner functions every node of a fragment appends its
contents to the element around it, or ends with their error, whatever that element is.  The contents
of a loop over a list are the contents of its children for each item, one after the other; and a
loop over two lists in a row does what it does over each of them in turn. -/
theorem appendNode_appends (p : Producer κ) (hp : p.owner.functions = []) (insert : Insert κ) :
    (∀ n context, Appending (p.appendNode insert n context)) ∧
    ∀ name attributes children key, p.directive? name = some .loop →
      attributeOf? attributes "list" = some key →
      (∀ context items, context.lookup? key.toList = some (.array items) →
        Appends (p.appendNode insert (.element ⟨name, attributes, children⟩) context)
          (concat (items.map fun item => contents (p.appendNodes insert children item)))) ∧
      ∀ context context₁ context₂ xs ys,
        context₁.lookup? key.toList = some (.array xs) →
        context₂.lookup? key.toList = some (.array ys) →
        context.lookup? key.toList = some (.array (xs ++ ys)) → ∀ target,
          p.appendNode insert (.element ⟨name, attributes, children⟩) context target =
            (p.appendNode insert (.element ⟨name, attributes, children⟩) context₁ target).andThen
              (p.appendNode insert (.element ⟨name, attributes, children⟩) context₂) := by
  refine ⟨appending_node hp, fun name attributes children key hname hkey => ⟨?_, ?_⟩⟩
  · intro context items hitems
    rw [appendNode_loop_items insert hname hkey hitems]
    exact Appends.forEach (appending_nodes hp children) items
  · intro context context₁ context₂ xs ys hxs hys hboth target
    rw [appendNode_loop_items insert hname hkey hxs, appendNode_loop_items insert hname hkey hys,
      appendNode_loop_items insert hname hkey hboth, forEach_append]

/-- A loop over two items, with a text and an inserted snippet for each of them. -/
theorem appendNode_appends_of_two_items :
    (Owner.none : Owner Unit).functions = [] ∧
    (⟨{}, default, 64, .none⟩ : Producer Unit).directive? "dht:for-each" = some .loop ∧
    attributeOf? [("list", "xs")] "list" = some "xs" ∧
    (Value.object [("xs", .array [.string "a", .string "b"])]).lookup? ['x', 's'] =
      some (.array [.string "a", .string "b"]) ∧
    Appends
      ((⟨{}, default, 64, .none⟩ : Producer Unit).appendNode (fun name _ => .ok ⟨name, [], [], []⟩)
        (.element ⟨"dht:for-each", [("list", "xs")],
          [.text "{{}}", .element ⟨"dht:insert-snippet", [("name", "{{}}")], []⟩]⟩)
        (.object [("xs", .array [.string "a", .string "b"])]))
      (.ok [.text "a", .element ⟨"a", [], [], []⟩, .text "b", .element ⟨"b", [], [], []⟩]) := by
  refine ⟨rfl, rfl, rfl, rfl, ?_⟩
  have h := (appendNode_appends (⟨{}, default, 64, .none⟩ : Producer Unit) rfl
    (fun name _ => .ok ⟨name, [], [], []⟩)).2 "dht:for-each" [("list", "xs")]
    [.text "{{}}", .element ⟨"dht:insert-snippet", [("name", "{{}}")], []⟩] "xs" rfl rfl
  exact h.1 (.object [("xs", .array [.string "a", .string "b"])]) _ rfl

end Producer

end Transclude
