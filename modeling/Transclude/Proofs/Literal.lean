/-
Fragments without directives.

A fragment that holds no directive and no reserved attribute is a pattern of what it produces: the
same tree with its attribute values and texts filled in.  Only texts that are blank as they are
written are left out, so which nodes there are is up to the fragment and not to the values.

* `Markup.Element.Literal` — an element that is copied as it is;
* `Markup.Element.instantiate` — a fragment filled in;
* `Output.Element.shape` — a tree but for its attribute values and texts;
* `produceAt_literal` — a literal fragment is produced as itself filled in, in one shape for all
  contexts.

Design notes: an element must not have an attribute twice, since the second would replace the value
of the first.
-/
import Transclude.Proofs.Contents
import Transclude.Proofs.Reserved
import Transclude.Proofs.Elements

namespace Transclude

/-! ### Patterns -/

namespace Markup.Element

/-- Whether an element is copied as it is: it is no directive of a namespace, it has none of its
reserved attributes, and none of its attributes twice. -/
structure Literal (ns : Namespace) (d : Element) : Prop where
  name : ∀ l ∈ Directive.localNames, d.name ≠ ns.qualify l
  attributes : ∀ a ∈ d.attributes, a.1 ≠ ns.qualify "postproduction" ∧
    ∀ event, event ≠ "" → a.1 ≠ ns.qualify ("on" ++ event)
  distinct : (d.attributes.map Prod.fst).Nodup

variable {κ : Type}

/-- Attributes with the placeholders of their values replaced. -/
def instantiateAttributes (context : Value) (attributes : List (String × String)) :
    List (String × String) :=
  attributes.map fun a => (a.1, Interpolation.interpolate a.2 context)

mutual

/-- A fragment with the placeholders of its attribute values and texts replaced. -/
def instantiate (context : Value) : Element → Output.Element κ
  | ⟨name, attributes, children⟩ =>
    ⟨name, instantiateAttributes context attributes, instantiateAmong context children, []⟩

/-- Nodes with their placeholders replaced; blank texts are left out. -/
def instantiateAmong (context : Value) : List Node → List (Output.Node κ)
  | [] => []
  | .text s :: ns =>
    if Text.allBlank s.toList then instantiateAmong context ns
    else .text (Interpolation.interpolate s context) :: instantiateAmong context ns
  | .element e :: ns => .element (instantiate context e) :: instantiateAmong context ns

end

end Markup.Element

namespace Output.Element

variable {κ : Type}

mutual

/-- A tree with all its attribute values and texts emptied. -/
def shape : Element κ → Element κ
  | ⟨tag, attributes, children, handlers⟩ =>
    ⟨tag, attributes.map fun a => (a.1, ""), shapeAmong children, handlers⟩

/-- Nodes with all their attribute values and texts emptied. -/
def shapeAmong : List (Node κ) → List (Node κ)
  | [] => []
  | .text _ :: ns => .text "" :: shapeAmong ns
  | .element e :: ns => .element (shape e) :: shapeAmong ns

end

end Output.Element

namespace Markup.Element

open Output.Element (shape shapeAmong)

variable {κ : Type}

mutual

theorem shape_instantiate (context context' : Value) : ∀ e : Element,
    (e.instantiate context : Output.Element κ).shape = (e.instantiate context').shape
  | ⟨name, attributes, children⟩ => by
    simp only [instantiate, shape, instantiateAttributes, List.map_map, Function.comp_def,
      shapeAmong_instantiateAmong context context' children]

theorem shapeAmong_instantiateAmong (context context' : Value) : ∀ ns : List Node,
    shapeAmong (instantiateAmong context ns : List (Output.Node κ)) =
      shapeAmong (instantiateAmong context' ns)
  | [] => rfl
  | .text s :: ns => by
    have hrest : shapeAmong (instantiateAmong context ns : List (Output.Node κ)) =
        shapeAmong (instantiateAmong context' ns) := shapeAmong_instantiateAmong context context' ns
    by_cases hs : Text.allBlank s.toList = true
    · simp only [instantiateAmong, if_pos hs, hrest]
    · simp only [instantiateAmong, if_neg hs, shapeAmong, hrest]
  | .element e :: ns => by
    simp only [instantiateAmong, shapeAmong, shape_instantiate context context' e,
      shapeAmong_instantiateAmong context context' ns]

end

end Markup.Element

namespace Output

theorem putAttribute_of_not_mem {name : String} (value : String) {as : List (String × String)}
    (h : name ∉ as.map Prod.fst) : putAttribute name value as = as ++ [(name, value)] := by
  induction as with
  | nil => rfl
  | cons a as ih =>
    rw [List.map_cons, List.mem_cons, not_or] at h
    rw [putAttribute, if_neg (Ne.symm h.1), ih h.2]
    rfl

end Output

namespace Producer

open Markup.Element (Literal subtrees subtreesAmong instantiateAmong instantiateAttributes)
open Production (Outcome)

variable {κ : Type} {p : Producer κ} {insert : Insert κ}

/-! ### Production -/

/-- Attributes that are not reserved are set one after the other. -/
theorem copyAttributes_literal (context : Value) {as : List (String × String)}
    (h : ∀ a ∈ as, p.reservedAttribute? a.1 = none) {e : Output.Element κ}
    (hdistinct : (e.attributes.map Prod.fst ++ as.map Prod.fst).Nodup) :
    p.copyAttributes context e as =
      .ok { e with attributes := e.attributes ++ instantiateAttributes context as } := by
  induction as generalizing e with
  | nil =>
    obtain ⟨tag, attributes, children, handlers⟩ := e
    rw [copyAttributes, instantiateAttributes, List.map_nil, List.append_nil]
  | cons a as ih =>
    have hnew : a.1 ∉ e.attributes.map Prod.fst := by
      rw [List.map_cons] at hdistinct
      exact fun hmem => (List.nodup_append.mp hdistinct).2.2 a.1 hmem a.1 (by simp) rfl
    have hcopy : p.copyAttribute context e a = .ok { e with
        attributes := e.attributes ++ [(a.1, Interpolation.interpolate a.2 context)] } := by
      simp only [copyAttribute, h a (by simp), Output.Element.setAttribute,
        Output.putAttribute_of_not_mem _ hnew]
    rw [copyAttributes, hcopy, Production.Outcome.bind_eq, Production.Outcome.ok_andThen,
      ih (fun b hb => h b (by simp [hb])) (by simpa using hdistinct)]
    simp [instantiateAttributes]

/-- Without reserved attributes nothing is left to do when an element is finished. -/
theorem finishElement_literal (context : Value) {as : List (String × String)}
    (h : ∀ a ∈ as, p.reservedAttribute? a.1 = none) (e : Output.Element κ) :
    p.finishElement as context e = .ok e := by
  have hnone : p.postproduction? as = none := by
    have hfilter : (as.filter fun a => p.reservedAttribute? a.1 == some .postproduction) = [] :=
      List.filter_eq_nil_iff.mpr fun a ha => by simp [h a ha]
    rw [postproduction?, hfilter]
    rfl
  rw [finishElement, hnone]

mutual

/-- A literal element is built as itself filled in. -/
theorem build_literal (context : Value) : ∀ e : Markup.Element,
    (∀ d ∈ e.subtrees, d.Literal p.reserved) →
    p.build insert e context = .ok (e.instantiate context)
  | ⟨name, attributes, children⟩, h => by
    rw [subtrees, List.forall_mem_cons] at h
    have hattributes : ∀ a ∈ attributes, p.reservedAttribute? a.1 = none :=
      fun a ha => reservedAttribute?_eq_none_iff.mpr (h.1.attributes a ha)
    rw [build, copyAttributes_literal context hattributes (by simpa using h.1.distinct)]
    simp only [Production.Outcome.bind_eq, Production.Outcome.ok_andThen, List.nil_append,
      appendNodes_literal context children h.2, finishElement_literal context hattributes]
    rfl

/-- Literal nodes are appended as themselves filled in. -/
theorem appendNodes_literal (context : Value) : ∀ ns : List Markup.Node,
    (∀ d ∈ subtreesAmong ns, d.Literal p.reserved) → ∀ target : Output.Element κ,
    p.appendNodes insert ns context target = .ok (target.extend (instantiateAmong context ns))
  | [], _, target => by
    rw [appendNodes_nil, instantiateAmong, Output.Element.extend_nil]
  | .text s :: ns, h, target => by
    rw [appendNodes_cons]
    by_cases hs : Text.allBlank s.toList = true
    · simp only [appendNode_blank p insert context hs, instantiateAmong, if_pos hs,
        Production.Outcome.ok_andThen]
      exact appendNodes_literal context ns h target
    · simp only [appendNode_text p insert context hs, instantiateAmong, if_neg hs,
        Production.Outcome.ok_andThen, appendNodes_literal context ns h]
      simp [Output.Element.extend, Output.Element.append]
  | .element ⟨name, attributes, children⟩ :: ns, h, target => by
    rw [subtreesAmong, List.forall_mem_append] at h
    have hname : p.directive? name = none :=
      directive?_eq_none_iff.mpr (h.1 ⟨name, attributes, children⟩ (by simp [subtrees])).name
    rw [appendNodes_cons, appendNode_literal p insert context hname]
    simp only [build_literal context ⟨name, attributes, children⟩ h.1,
      Production.Outcome.ok_andThen, appendNodes_literal context ns h.2]
    simp [instantiateAmong, Output.Element.extend, Output.Element.append]

end

/-- **A literal snippet is produced as it is written.**  If no element of a fragment is a directive,
has a reserved attribute or has an attribute twice, production within the limit succeeds without any
notice, and its result is the fragment with its attribute values and texts filled in and its blank
texts left out.  For any two contexts the results have the same shape. -/
theorem produceAt_literal (p : Producer κ) {name : String} {fragment : Markup.Element}
    (hfragment : p.registry.get? name = some fragment)
    (hliteral : ∀ d ∈ fragment.subtrees, d.Literal p.reserved)
    {depth : Nat} (hdepth : depth ≤ p.maxDepth) :
    (∀ context, p.produceAt depth name context = .ok (fragment.instantiate context)) ∧
    ∀ context context' e e', (p.produceAt depth name context).result = .ok e →
      (p.produceAt depth name context').result = .ok e' → e.shape = e'.shape := by
  have hproduce : ∀ context,
      p.produceAt depth name context = .ok (fragment.instantiate context) := by
    intro context
    rw [p.produceAt_eq_build hdepth hfragment]
    exact build_literal context fragment hliteral
  refine ⟨hproduce, fun context context' e e' he he' => ?_⟩
  rw [hproduce context] at he
  rw [hproduce context'] at he'
  cases he
  cases he'
  exact fragment.shape_instantiate context context'

/-- A value that is blank makes a blank text and leaves the shape as it is. -/
theorem produceAt_literal_of_blank_value :
    let card : Markup.Element := ⟨"div", [("class", "card {{k}}"), ("dht:note", "")],
      [.text " ", .element ⟨"h2", [], [.text "{{t}}"]⟩]⟩
    let p : Producer Unit := ⟨⟨[("card", card)]⟩, default, 64, .none⟩
    let filled (k t : String) : Output.Element Unit :=
      ⟨"div", [("class", "card " ++ k), ("dht:note", "")],
        [.element ⟨"h2", [], [.text t], []⟩], []⟩
    (∀ d ∈ card.subtrees, d.Literal p.reserved) ∧
    p.produceAt 64 "card" (.object [("k", .string "wide"), ("t", .string " ")]) =
      .ok (filled "wide" " ") ∧
    p.produceAt 64 "card" (.object [("k", .string "x"), ("t", .string "News")]) =
      .ok (filled "x" "News") ∧
    (filled "wide" " ").shape = (filled "x" "News").shape := by
  intro card p filled
  have hattributes : ∀ d ∈ card.subtrees, ∀ a ∈ d.attributes,
      p.reservedAttribute? a.1 = none := by decide
  have hnames : ∀ d ∈ card.subtrees, ∀ l ∈ Directive.localNames, d.name ≠ p.reserved.qualify l := by
    decide
  have hliteral : ∀ d ∈ card.subtrees, d.Literal p.reserved := fun d hd =>
    ⟨hnames d hd, fun a ha => reservedAttribute?_eq_none_iff.mp (hattributes d hd a ha),
      (show ∀ d ∈ card.subtrees, (d.attributes.map Prod.fst).Nodup by decide) d hd⟩
  have hcard : p.registry.get? "card" = some card := rfl
  obtain ⟨hproduce, hshape⟩ :=
    produceAt_literal p hcard hliteral (show 64 ≤ p.maxDepth from Nat.le_refl 64)
  have hblank := (hproduce (.object [("k", .string "wide"), ("t", .string " ")])).trans
    (show _ = Outcome.ok (filled "wide" " ") from by rfl)
  have hnews := (hproduce (.object [("k", .string "x"), ("t", .string "News")])).trans
    (show _ = Outcome.ok (filled "x" "News") from by rfl)
  refine ⟨hliteral, hblank, hnews, ?_⟩
  exact hshape _ _ _ _ (congrArg Outcome.result hblank) (congrArg Outcome.result hnews)

end Producer

end Transclude
