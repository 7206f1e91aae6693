/-
Reserved names stay in the templates.

Directives are carried out and reserved attributes are taken off, so that neither is left in what is
produced.  That the root of a fragment is no directive has to be assumed: a root is copied as it is,
whatever its name.

* `directive?_eq_none_iff`, `reservedAttribute?_eq_none_iff` — which names are not reserved, by the
  local names of the namespace;
* `Output.Element.subtrees` — the elements of a tree of output, in document order;
* `Keeps` — a step keeps a tree free of reserved names, if it was;
* `produce_unreserved` — no element that is produced has a reserved name, nor a reserved attribute.

Design notes: owner functions may do anything to an element, so there must be none.  All that is known
of inserted snippets is that they are free of reserved names themselves; the depth takes care of that.
-/
import Transclude.Production.Producer

namespace Transclude

/-! ### Trees of output -/

namespace Output.Element

variable {κ : Type}

mutual

/-- The elements of a tree in document order: each comes before what it contains. -/
def subtrees : Element κ → List (Element κ)
  | ⟨tag, attributes, children, handlers⟩ =>
    ⟨tag, attributes, children, handlers⟩ :: subtreesAmong children

/-- The elements among some nodes and below them, in document order. -/
def subtreesAmong : List (Node κ) → List (Element κ)
  | [] => []
  | .text _ :: ns => subtreesAmong ns
  | .element e :: ns => subtrees e ++ subtreesAmong ns

end

theorem subtrees_eq (e : Element κ) : e.subtrees = e :: subtreesAmong e.children := by
  obtain ⟨tag, attributes, children, handlers⟩ := e
  rw [subtrees]

theorem subtreesAmong_append (ns ms : List (Node κ)) :
    subtreesAmong (ns ++ ms) = subtreesAmong ns ++ subtreesAmong ms := by
  induction ns with
  | nil => rfl
  | cons n ns ih =>
    cases n with
    | text s => rw [List.cons_append, subtreesAmong, subtreesAmong, ih]
    | element e => rw [List.cons_append, subtreesAmong, subtreesAmong, ih, List.append_assoc]

end Output.Element

/-! ### Results -/

namespace Production.Outcome

variable {κ α β : Type} {P : α → Prop} {Q : β → Prop} {x : Outcome κ α}

/-- Whether an outcome is an error or has a result with a property. -/
def Yields (P : α → Prop) (x : Outcome κ α) : Prop := ∀ a, x.result = .ok a → P a

theorem Yields.of_result {a : α} (h : x.result = .ok a) (ha : P a) : x.Yields P := by
  intro b hb
  rw [h] at hb
  cases hb
  exact ha

theorem Yields.ok {a : α} (ha : P a) : (Outcome.ok a : Outcome κ α).Yields P :=
  .of_result rfl ha

theorem Yields.warn (w : Warning) {a : α} (ha : P a) :
    (Outcome.warn w a : Outcome κ α).Yields P := .of_result rfl ha

theorem Yields.fail (e : Error) : (Outcome.fail e : Outcome κ α).Yields P := by
  intro a h
  cases h

theorem Yields.andThen (h : x.Yields P) {f : α → Outcome κ β} (hf : ∀ a, P a → (f a).Yields Q) :
    (x.andThen f).Yields Q := by
  intro b hb
  rw [Outcome.andThen] at hb
  cases hx : x.result with
  | error e =>
    rw [hx] at hb
    cases hb
  | ok a =>
    rw [hx] at hb
    exact hf a (h a hx) b hb

/-- What follows an outcome of which nothing is known. -/
theorem yields_andThen (x : Outcome κ α) {f : α → Outcome κ β} (hf : ∀ a, (f a).Yields Q) :
    (x.andThen f).Yields Q :=
  Yields.andThen (P := fun _ => True) (fun _ _ => trivial) fun a _ => hf a

end Production.Outcome

/-! ### Reserved names -/

/-- The local names of the directives. -/
def Directive.localNames : List String := ["if", "for-each", "call-function", "insert-snippet"]

theorem Directive.ofLocalName?_eq_none_iff {l : String} :
    ofLocalName? l = none ↔ l ∉ localNames := by
  unfold ofLocalName?
  split <;> simp_all [localNames]

theorem ReservedAttribute.ofLocalName?_eq_none_iff {l : String} :
    ofLocalName? l = none ↔ l ≠ "postproduction" ∧ ∀ event, event ≠ "" → l ≠ "on" ++ event := by
  by_cases hpost : l = "postproduction"
  · simp [ofLocalName?, hpost]
  rw [ofLocalName?, if_neg hpost]
  split
  · -- `on` and at least one more character
    rename_i c cs hl
    have hevent : l = "on" ++ String.ofList (c :: cs) := by
      apply String.toList_inj.mp
      rw [hl]
      simp
    simp only [reduceCtorEq, false_iff, not_and]
    exact fun _ h => h (String.ofList (c :: cs)) (by simp [← String.toList_inj]) hevent
  · rename_i hl
    simp only [true_iff]
    refine ⟨hpost, ?_⟩
    rintro event hevent rfl
    cases hcs : event.toList with
    | nil => exact hevent (String.toList_eq_nil_iff.mp hcs)
    | cons c cs => exact hl c cs (by simp [hcs])

namespace Producer

open Production (Outcome)
open Production.Outcome (Yields yields_andThen)
open Output.Element (subtreesAmong subtreesAmong_append subtrees_eq)

variable {κ : Type} {p : Producer κ} {insert : Insert κ} {context : Value}

theorem directive?_eq_none_iff {name : String} :
    p.directive? name = none ↔ ∀ l ∈ Directive.localNames, name ≠ p.reserved.qualify l := by
  rw [directive?, Option.bind_eq_none_iff]
  simp only [Namespace.localName?_eq_some, Directive.ofLocalName?_eq_none_iff]
  constructor
  · intro h l hl hname
    exact h l hname hl
  · intro h l hname hl
    exact h l hl hname

theorem reservedAttribute?_eq_none_iff {name : String} :
    p.reservedAttribute? name = none ↔ name ≠ p.reserved.qualify "postproduction" ∧
      ∀ event, event ≠ "" → name ≠ p.reserved.qualify ("on" ++ event) := by
  rw [reservedAttribute?, Option.bind_eq_none_iff]
  simp only [Namespace.localName?_eq_some, ReservedAttribute.ofLocalName?_eq_none_iff]
  constructor
  · intro h
    exact ⟨fun hname => (h _ hname).1 rfl, fun event hevent hname => (h _ hname).2 event hevent rfl⟩
  · rintro ⟨hpost, hon⟩ l hname
    exact ⟨fun hl => hpost (hl ▸ hname), fun event hevent hl => hon event hevent (hl ▸ hname)⟩

/-- Whether an element is no directive of a namespace and has none of its reserved attributes. -/
structure Unreserved (ns : Namespace) (e : Output.Element κ) : Prop where
  tag : ∀ l ∈ Directive.localNames, e.tag ≠ ns.qualify l
  attributes : ∀ a ∈ e.attributes, a.1 ≠ ns.qualify "postproduction" ∧
    ∀ event, event ≠ "" → a.1 ≠ ns.qualify ("on" ++ event)

/-- Whether this holds of all elements of a tree. -/
def Free (ns : Namespace) (e : Output.Element κ) : Prop := ∀ d ∈ e.subtrees, Unreserved ns d

theorem free_iff {ns : Namespace} {e : Output.Element κ} :
    Free ns e ↔ Unreserved ns e ∧ ∀ d ∈ subtreesAmong e.children, Unreserved ns d := by
  rw [Free, subtrees_eq, List.forall_mem_cons]

theorem Free.append_text {ns : Namespace} {e : Output.Element κ} (h : Free ns e) (s : String) :
    Free ns (e.append (.text s)) := by
  rw [free_iff] at h ⊢
  refine ⟨⟨h.1.tag, h.1.attributes⟩, ?_⟩
  rw [Output.Element.append, subtreesAmong_append]
  simpa [subtreesAmong] using h.2

theorem Free.append_element {ns : Namespace} {e child : Output.Element κ} (h : Free ns e)
    (hchild : Free ns child) : Free ns (e.append (.element child)) := by
  rw [free_iff] at h ⊢
  refine ⟨⟨h.1.tag, h.1.attributes⟩, ?_⟩
  rw [Output.Element.append, subtreesAmong_append, subtreesAmong, subtreesAmong, List.append_nil]
  intro d hd
  rcases List.mem_append.mp hd with hd | hd
  · exact h.2 d hd
  · exact hchild d hd

/-! ### Attributes -/

theorem mem_putAttribute {name value : String} {as : List (String × String)} {a : String × String}
    (h : a ∈ Output.putAttribute name value as) : a.1 = name ∨ a ∈ as := by
  induction as with
  | nil =>
    rw [Output.putAttribute, List.mem_singleton] at h
    exact .inl (congrArg Prod.fst h)
  | cons b as ih =>
    rw [Output.putAttribute] at h
    split at h
    · rcases List.mem_cons.mp h with rfl | h
      · exact .inl rfl
      · exact .inr (List.mem_cons_of_mem b h)
    · rcases List.mem_cons.mp h with rfl | h
      · exact .inr List.mem_cons_self
      · exact (ih h).imp_right (List.mem_cons_of_mem b)

/-- An attribute that is copied is not reserved; what a reserved one does is not in the tree. -/
theorem free_copyAttribute {e : Output.Element κ} (h : Free p.reserved e) (a : String × String) :
    (p.copyAttribute context e a).Yields (Free p.reserved) := by
  rw [copyAttribute]
  split
  · exact .ok h
  · split
    · refine .ok ?_
      rw [free_iff] at h ⊢
      exact ⟨⟨h.1.tag, h.1.attributes⟩, h.2⟩
    · exact .warn _ h
  · rename_i hname
    refine .ok ?_
    rw [free_iff] at h ⊢
    refine ⟨⟨h.1.tag, ?_⟩, h.2⟩
    intro b hb
    rcases mem_putAttribute hb with hb | hb
    · rw [hb]
      exact reservedAttribute?_eq_none_iff.mp hname
    · exact h.1.attributes b hb

theorem free_copyAttributes {e : Output.Element κ} (h : Free p.reserved e)
    (as : List (String × String)) :
    (p.copyAttributes context e as).Yields (Free p.reserved) := by
  induction as generalizing e with
  | nil => exact .ok h
  | cons a as ih =>
    rw [copyAttributes]
    exact (free_copyAttribute h a).andThen fun e' h' => ih h'

/-! ### Steps -/

/-- Whether a step keeps a tree free of reserved names. -/
def Keeps (p : Producer κ) (step : Output.Element κ → Outcome κ (Output.Element κ)) : Prop :=
  ∀ target, Free p.reserved target → (step target).Yields (Free p.reserved)

theorem keeps_ok : p.Keeps .ok := fun _ h => .ok h

theorem Keeps.andThen {step next : Output.Element κ → Outcome κ (Output.Element κ)}
    (h : p.Keeps step) (hnext : p.Keeps next) :
    p.Keeps fun target => (step target).andThen next :=
  fun target htarget => (h target htarget).andThen hnext

/-- A step that depends on what something else comes to. -/
theorem keeps_after {α : Type} (x : Outcome κ α)
    {step : α → Output.Element κ → Outcome κ (Output.Element κ)} (h : ∀ a, p.Keeps (step a)) :
    p.Keeps fun target => x.andThen fun a => step a target :=
  fun target htarget => yields_andThen x fun a => h a target htarget

theorem keeps_forEach {step : Value → Output.Element κ → Outcome κ (Output.Element κ)}
    (h : ∀ item, p.Keeps (step item)) (items : List Value) : p.Keeps (forEach step items) := by
  induction items with
  | nil => exact keeps_ok
  | cons item items ih => exact (h item).andThen ih

/-- A tree that is produced apart is appended as it is. -/
theorem keeps_append {x : Outcome κ (Output.Element κ)} (h : x.Yields (Free p.reserved)) :
    p.Keeps fun target => x.andThen fun e => .ok (target.append (.element e)) :=
  fun _ htarget => h.andThen fun _ he => .ok (htarget.append_element he)

theorem keeps_callFunction (hp : p.owner.functions = []) (name : String)
    (attributes : List (String × String)) :
    p.Keeps (p.callFunction name attributes context) := by
  intro target htarget
  rw [callFunction]
  split
  · exact .warn _ htarget
  · split
    · rename_i hcall
      simp [Owner.call?, Owner.get?, hp] at hcall
    · exact .warn _ htarget

theorem free_finishElement (hp : p.owner.functions = []) (attributes : List (String × String))
    {e : Output.Element κ} (h : Free p.reserved e) :
    (p.finishElement attributes context e).Yields (Free p.reserved) := by
  rw [finishElement]
  split
  · exact .ok h
  · split
    · rename_i hcall
      simp [Owner.call?, Owner.get?, hp] at hcall
    · exact .warn _ h

theorem keeps_insertSnippet
    (hinsert : ∀ name context, (insert name context).Yields (Free p.reserved)) (name : String)
    (attributes : List (String × String)) :
    p.Keeps (insertSnippet insert name attributes context) := by
  intro target htarget
  rw [insertSnippet]
  split
  · exact .warn _ htarget
  · exact keeps_append (hinsert _ _) target htarget

theorem keeps_branch {children : List Markup.Node}
    (hnamed : ∀ tag, p.Keeps (p.appendNamed insert tag children context))
    (hothers : ∀ tag, p.Keeps (p.appendOthers insert tag children context)) (holds : Bool) :
    p.Keeps (p.branch insert context children holds) := by
  rw [branch]
  split
  · split
    · exact hnamed _
    · exact hothers _
  · exact hnamed _

/-! ### Fragments -/

-- by the recursion of the producer over the nodes; what inserted snippets come to is given
mutual

/-- An element that is no directive is copied free of reserved names. -/
theorem free_build (hp : p.owner.functions = [])
    (hinsert : ∀ name context, (insert name context).Yields (Free p.reserved)) :
    ∀ (e : Markup.Element) (context : Value), p.directive? e.name = none →
      (p.build insert e context).Yields (Free p.reserved)
  | ⟨name, attributes, children⟩, context, hname => by
    rw [build]
    have hempty : Free p.reserved (⟨name, [], [], []⟩ : Output.Element κ) := by
      rw [free_iff]
      refine ⟨⟨directive?_eq_none_iff.mp hname, ?_⟩, ?_⟩
      · intro a ha
        cases ha
      · intro d hd
        cases hd
    exact (free_copyAttributes hempty attributes).andThen fun e he =>
      (keeps_nodes hp hinsert children context e he).andThen fun e' he' =>
        free_finishElement hp attributes he'

/-- A node keeps the element around it free of reserved names. -/
theorem keeps_node (hp : p.owner.functions = [])
    (hinsert : ∀ name context, (insert name context).Yields (Free p.reserved)) :
    ∀ (n : Markup.Node) (context : Value), p.Keeps (p.appendNode insert n context)
  | .text s, context => by
    by_cases hs : Text.allBlank s.toList = true
    · rw [appendNode_blank p insert context hs]
      exact keeps_ok
    · rw [appendNode_text p insert context hs]
      exact fun target htarget => .ok (htarget.append_text _)
  | .element ⟨name, attributes, children⟩, context => by
    cases hname : p.directive? name with
    | none =>
      rw [appendNode_literal p insert context hname]
      exact keeps_append (free_build hp hinsert ⟨name, attributes, children⟩ context hname)
    | some directive =>
      cases directive with
      | conditional =>
        rw [appendNode_conditional p insert context hname]
        exact keeps_after _ (keeps_branch (fun tag => keeps_named hp hinsert tag children context)
          fun tag => keeps_others hp hinsert tag children context)
      | loop =>
        rw [appendNode_loop p insert context hname]
        exact keeps_after _ (keeps_forEach fun item => keeps_nodes hp hinsert children item)
      | call =>
        rw [appendNode_call p insert context hname]
        exact keeps_callFunction hp name attributes
      | insertion =>
        rw [appendNode_insertion p insert context hname]
        exact keeps_insertSnippet hinsert name attributes

theorem keeps_nodes (hp : p.owner.functions = [])
    (hinsert : ∀ name context, (insert name context).Yields (Free p.reserved)) :
    ∀ (ns : List Markup.Node) (context : Value), p.Keeps (p.appendNodes insert ns context)
  | [], context => by
    rw [appendNodes_nil]
    exact keeps_ok
  | n :: ns, context => by
    rw [appendNodes_cons]
    exact (keeps_node hp hinsert n context).andThen (keeps_nodes hp hinsert ns context)

theorem keeps_named (hp : p.owner.functions = [])
    (hinsert : ∀ name context, (insert name context).Yields (Free p.reserved)) (tag : String) :
    ∀ (ns : List Markup.Node) (context : Value), p.Keeps (p.appendNamed insert tag ns context)
  | [], context => by
    rw [appendNamed_nil]
    exact keeps_ok
  | .text s :: ns, context => by
    rw [appendNamed_text]
    exact keeps_named hp hinsert tag ns context
  | .element ⟨name, attributes, children⟩ :: ns, context => by
    rw [appendNamed_element]
    split
    · exact keeps_nodes hp hinsert children context
    · exact keeps_named hp hinsert tag ns context

theorem keeps_others (hp : p.owner.functions = [])
    (hinsert : ∀ name context, (insert name context).Yields (Free p.reserved)) (tag : String) :
    ∀ (ns : List Markup.Node) (context : Value), p.Keeps (p.appendOthers insert tag ns context)
  | [], context => by
    rw [appendOthers_nil]
    exact keeps_ok
  | .text s :: ns, context => by
    rw [appendOthers_text]
    exact (keeps_node hp hinsert (.text s) context).andThen
      (keeps_others hp hinsert tag ns context)
  | .element ⟨name, attributes, children⟩ :: ns, context => by
    rw [appendOthers_element]
    split
    · exact keeps_others hp hinsert tag ns context
    · exact (keeps_node hp hinsert (.element ⟨name, attributes, children⟩) context).andThen
        (keeps_others hp hinsert tag ns context)

end

/-! ### Snippets -/

theorem free_produceAt (hp : p.owner.functions = [])
    (hregistry : ∀ name fragment, p.registry.get? name = some fragment →
      p.directive? fragment.name = none) (depth : Nat) (name : String) (context : Value) :
    (p.produceAt depth name context).Yields (Free p.reserved) := by
  rw [produceAt]
  split
  · exact .fail _
  · split
    · exact .fail _
    · rename_i fragment hfragment
      exact free_build hp (free_produceAt hp hregistry (depth + 1)) fragment context
        (hregistry name fragment hfragment)
termination_by p.maxDepth + 1 - depth

/-- **Directives and reserved attributes never reach the output.**  Without owner functions, and if no
root of a fragment is a directive, no element of a produced tree has the name of a directive, and
none has a reserved attribute. -/
theorem produce_unreserved (p : Producer κ) (hp : p.owner.functions = [])
    (hregistry : ∀ name fragment, p.registry.get? name = some fragment →
      ∀ l ∈ Directive.localNames, fragment.name ≠ p.reserved.qualify l)
    (name : String) (context : Value) (e : Output.Element κ)
    (h : (p.produce name context).result = .ok e) :
    ∀ d ∈ e.subtrees, (∀ l ∈ Directive.localNames, d.tag ≠ p.reserved.qualify l) ∧
      ∀ a ∈ d.attributes, a.1 ≠ p.reserved.qualify "postproduction" ∧
        ∀ event, event ≠ "" → a.1 ≠ p.reserved.qualify ("on" ++ event) := by
  intro d hd
  have hroots : ∀ name fragment, p.registry.get? name = some fragment →
      p.directive? fragment.name = none := by
    intro name fragment hfragment
    exact directive?_eq_none_iff.mpr (hregistry name fragment hfragment)
  have hfree := free_produceAt hp hroots 0 name context e h d hd
  exact ⟨hfree.tag, hfree.attributes⟩

/-- A snippet with a handler, and in a loop a function to call afterwards and an insertion. -/
theorem produce_unreserved_of_nested_directives :
    let item : Markup.Element := ⟨"li", [("dht:postproduction", "f")],
      [.element ⟨"dht:call-function", [("name", "g")], []⟩,
        .element ⟨"dht:insert-snippet", [("name", "{{}}")], []⟩]⟩
    let list : Markup.Element := ⟨"ul", [("class", "c"), ("dht:onclick", "g")],
      [.element ⟨"dht:for-each", [("list", "xs")], [.element item]⟩]⟩
    let p : Producer Unit := ⟨⟨[("list", list), ("mark", ⟨"b", [], []⟩)]⟩, default, 64, .none⟩
    ∃ e, (p.produce "list" (.object [("xs", .array [.string "mark"])])).result = .ok e ∧
      e.subtrees.map (fun d => d.tag) = ["ul", "li", "b"] ∧
      ∀ d ∈ e.subtrees, d.tag ≠ "dht:call-function" ∧ ∀ a ∈ d.attributes, a.1 ≠ "dht:onclick" := by
  intro item list p
  have hresult : (p.produce "list" (.object [("xs", .array [.string "mark"])])).result =
      .ok ⟨"ul", [("class", "c")], [.element ⟨"li", [], [.element ⟨"b", [], [], []⟩], []⟩], []⟩ := by
    have hlist : p.registry.get? "list" = some list := rfl
    have hmark : ∀ context, p.produceAt 1 "mark" context = .ok ⟨"b", [], [], []⟩ := by
      intro context
      rw [p.produceAt_eq_build (by decide) rfl]
      rfl
    rw [p.produce_eq_build hlist hmark]
    -- evaluation needs the trees themselves in place of their names
    simp only [item, list, p]
    rfl
  have hroots : ∀ name fragment, p.registry.get? name = some fragment →
      ∀ l ∈ Directive.localNames, fragment.name ≠ p.reserved.qualify l := by
    intro name fragment hfragment
    obtain ⟨entry, hentry, rfl⟩ := Option.map_eq_some_iff.mp hfragment
    have hmem := List.mem_of_find?_eq_some hentry
    simp only [p, List.mem_cons, List.not_mem_nil, or_false] at hmem
    rcases hmem with rfl | rfl <;> decide
  refine ⟨_, hresult, rfl, ?_⟩
  intro d hd
  obtain ⟨htag, hattributes⟩ := produce_unreserved p rfl hroots "list" _ _ hresult d hd
  exact ⟨htag "call-function" (by decide), fun a ha => (hattributes a ha).2 "click" (by decide)⟩

end Producer

end Transclude
