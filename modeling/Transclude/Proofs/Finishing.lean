/-
Finished elements.

The function that an element names for the time when it is finished is called when its attributes
are copied and all that it contains has been put into it, and nothing is done to the element after
that.  So if functions leave elements as they are, these calls are about the elements of the tree
that is produced, and come in post-order.

* `Owner.Observing` — the functions of an owner change no element;
* `Producer.requests` — the calls that directives and finished elements ask for on the way to a
  built element;
* `Producer.Carries`, `Producer.Completes` — what a step puts into an element, and what an outcome
  builds, with the calls on the way;
* `produce_finishes_in_postorder` — the calls for finished elements are those for the origins of the
  produced tree, in post-order.

Design notes: a function that is called may call others in turn.  A request is for one call, and
what it leaves in the record is up to the owner (`Owner.record`).
-/
import Transclude.Proofs.Contents
import Transclude.Proofs.Provenance

namespace Transclude

/-! ### Owners -/

namespace Owner

variable {κ : Type}

/-- Whether the functions of an owner leave every element as it is. -/
def Observing (o : Owner κ) : Prop :=
  ∀ name f, o.get? name = some f → ∀ payload e, (o.run f payload e).1 = e

/-- The request for a call by name, if the owner has the function. -/
def request? (o : Owner κ) (name : String) (e : Output.Element κ) (payload : Value) :
    Option (Call κ) := (o.get? name).map fun _ => ⟨name, e, payload⟩

/-- What a request leaves in the record: the call, and what the function calls in turn. -/
def record (o : Owner κ) (c : Call κ) : List (Call κ) :=
  ((o.get? c.function).map fun f => c :: (o.run f c.payload c.element).2).getD []

theorem Observing.call?_eq {o : Owner κ} (ho : o.Observing) (name : String) (payload : Value)
    (e : Output.Element κ) :
    o.call? name payload e = (o.request? name e payload).map fun c => (e, o.record c) := by
  cases hf : o.get? name with
  | none => rw [call?, request?, hf, Option.map_none, Option.map_none, Option.map_none]
  | some f =>
    simp only [call?, request?, record, hf, Option.map_some, Option.getD_some,
      ho name f hf payload e]

end Owner

/-! ### Outcomes -/

namespace Production

namespace Outcome

variable {κ α β : Type} {x : Outcome κ α}

theorem andThen_of_result {a : α} (h : x.result = .ok a) (f : α → Outcome κ β) :
    (x.andThen f).result = (f a).result ∧ (x.andThen f).calls = x.calls ++ (f a).calls := by
  obtain ⟨notices, result⟩ := x
  obtain rfl : result = .ok a := h
  exact ⟨rfl, List.filterMap_append⟩

/-- A result comes of the results of both steps. -/
theorem exists_of_andThen {f : α → Outcome κ β} {b : β} (h : (x.andThen f).result = .ok b) :
    ∃ a, x.result = .ok a ∧ (f a).result = .ok b := by
  cases hx : x.result with
  | error e =>
    rw [andThen, hx] at h
    cases h
  | ok a => exact ⟨a, rfl, (andThen_of_result hx f).1.symm.trans h⟩

theorem calls_called (calls : List (Call κ)) (a : α) : (called calls a).calls = calls := by
  rw [called, Outcome.calls, List.filterMap_map]
  exact List.filterMap_some

end Outcome

/-! ### Requests -/

/-- A request for a call: of a directive, or for a finished element. -/
inductive Request (κ : Type) where
  | directive (c : Call κ)
  | finishing (c : Call κ)

namespace Request

variable {κ : Type}

/-- The call that is requested. -/
def call : Request κ → Call κ
  | directive c => c
  | finishing c => c

/-- The call that is requested for a finished element. -/
def finishing? : Request κ → Option (Call κ)
  | directive _ => none
  | finishing c => some c

end Request

end Production

namespace Producer

open Production (Outcome Built Origin Request)
open Production.Built (nodesAmong originsAmong)

variable {κ : Type}

/-- The call for a finished element, if its source names a function that the owner has. -/
def finishingCall? (p : Producer κ) (o : Origin κ) : Option (Call κ) :=
  (p.postproduction? o.source.attributes).bind fun function =>
    p.owner.request? function o.element o.context

mutual

/-- The requests on the way to a built element, its own last. -/
def requests (p : Producer κ) : Built κ → List (Request κ)
  | ⟨source, context, shell, content⟩ =>
    requestsAmong p shell content ++
      ((p.finishingCall? (Built.origin ⟨source, context, shell, content⟩)).map .finishing).toList

/-- The requests on the way when some parts are put into an element one after the other. -/
def requestsAmong (p : Producer κ) :
    Output.Element κ → List (Built.Part κ) → List (Request κ)
  | _, [] => []
  | target, .text s :: ps => requestsAmong p (target.append (.text s)) ps
  | target, .call function context :: ps =>
    ((p.owner.request? function target context).map .directive).toList ++
      requestsAmong p target ps
  | target, .element b :: ps =>
    requests p b ++ requestsAmong p (target.append (.element b.element)) ps

end

/-- The calls that some requests lead to. -/
def answers (p : Producer κ) (rs : List (Request κ)) : List (Call κ) :=
  rs.flatMap fun r => p.owner.record r.call

variable {p : Producer κ}

theorem answers_append (rs qs : List (Request κ)) :
    p.answers (rs ++ qs) = p.answers rs ++ p.answers qs := List.flatMap_append

theorem requestsAmong_append (target : Output.Element κ) (ps qs : List (Built.Part κ)) :
    p.requestsAmong target (ps ++ qs) =
      p.requestsAmong target ps ++ p.requestsAmong (target.extend (nodesAmong ps)) qs := by
  induction ps generalizing target with
  | nil => rw [requestsAmong, nodesAmong, Output.Element.extend_nil]; rfl
  | cons part ps ih =>
    cases part with
    | text s =>
      rw [List.cons_append, requestsAmong, requestsAmong, nodesAmong, ih]
      simp [Output.Element.extend, Output.Element.append]
    | call function context =>
      rw [List.cons_append, requestsAmong, requestsAmong, nodesAmong, ih, List.append_assoc]
    | element b =>
      rw [List.cons_append, requestsAmong, requestsAmong, nodesAmong, ih, List.append_assoc]
      simp [Output.Element.extend, Output.Element.append]

mutual

/-- The requests for finished elements are those of the origins, in post-order. -/
theorem finishing_requests (p : Producer κ) : ∀ b : Built κ,
    (p.requests b).filterMap Request.finishing? = b.origins.filterMap p.finishingCall?
  | ⟨source, context, shell, content⟩ => by
    rw [requests, Built.origins, List.filterMap_append, List.filterMap_append,
      finishing_requestsAmong p shell content]
    congr 1
    cases h : p.finishingCall? (Built.origin ⟨source, context, shell, content⟩) with
    | none => simp [h]
    | some c => simp [h, Request.finishing?]

theorem finishing_requestsAmong (p : Producer κ) :
    ∀ (target : Output.Element κ) (ps : List (Built.Part κ)),
    (p.requestsAmong target ps).filterMap Request.finishing? =
      (originsAmong ps).filterMap p.finishingCall?
  | _, [] => by rw [requestsAmong, originsAmong]; rfl
  | target, .text s :: ps => by
    rw [requestsAmong, originsAmong, finishing_requestsAmong p _ ps]
  | target, .call function context :: ps => by
    rw [requestsAmong, originsAmong, List.filterMap_append, finishing_requestsAmong p _ ps]
    cases p.owner.request? function target context <;> rfl
  | target, .element b :: ps => by
    rw [requestsAmong, originsAmong, List.filterMap_append, List.filterMap_append,
      finishing_requests p b, finishing_requestsAmong p _ ps]

end

/-! ### Steps -/

/-- How a step on an element comes out when it carries out some nodes: they unfold to some parts,
and these are put into the element, with the requests on the way. -/
structure Carried (p : Producer κ) (work : List (Markup.Node × Value)) (target : Output.Element κ)
    (x : Outcome κ (Output.Element κ)) (parts : List (Built.Part κ)) : Prop where
  unfolds : p.Unfolds work parts
  result : x.result = .ok (target.extend (nodesAmong parts))
  calls : x.calls = p.answers (p.requestsAmong target parts)

/-- Whether a step carries out some nodes, or ends with an error. -/
def Carries (p : Producer κ) (step : Step κ) (work : List (Markup.Node × Value)) : Prop :=
  ∀ target e, (step target).result = .ok e → ∃ parts, p.Carried work target (step target) parts

/-- How an outcome comes out when it builds an element from a source. -/
structure Completed (p : Producer κ) (source : Markup.Element) (context : Value)
    (x : Outcome κ (Output.Element κ)) (b : Built κ) : Prop where
  builds : p.Builds source context b
  result : x.result = .ok b.element
  calls : x.calls = p.answers (p.requests b)

/-- Whether an outcome builds an element from a source, or is an error. -/
def Completes (p : Producer κ) (source : Markup.Element) (context : Value)
    (x : Outcome κ (Output.Element κ)) : Prop :=
  ∀ e, x.result = .ok e → ∃ b, p.Completed source context x b

namespace Carries

variable {step next : Step κ} {work later : List (Markup.Node × Value)} {n : Markup.Node}
  {context : Value}

/-- A step that leaves every element as it is and calls nothing. -/
theorem still (h : ∀ target, (step target).result = .ok target ∧ (step target).calls = []) :
    p.Carries step [] := by
  intro target e _
  refine ⟨[], .nil, ?_, ?_⟩
  · rw [nodesAmong, Output.Element.extend_nil, (h target).1]
  · rw [requestsAmong, (h target).2]
    rfl

theorem nil : p.Carries .ok [] := still fun _ => ⟨rfl, rfl⟩

theorem warn (w : Warning) : p.Carries (.warn w) [] := still fun _ => ⟨rfl, rfl⟩

/-- One step after the other carries out one list of nodes after the other. -/
theorem andThen (h : p.Carries step work) (hnext : p.Carries next later) :
    p.Carries (fun target => (step target).andThen next) (work ++ later) := by
  intro target e he
  obtain ⟨target', htarget, hresult⟩ := Outcome.exists_of_andThen he
  have hcalls := (Outcome.andThen_of_result htarget next).2
  obtain ⟨parts, hparts⟩ := h target target' htarget
  obtain ⟨more, hmore⟩ := hnext target' e hresult
  have htarget' : target' = target.extend (nodesAmong parts) :=
    Except.ok.inj (htarget.symm.trans hparts.result)
  refine ⟨parts ++ more, hparts.unfolds.append hmore.unfolds, ?_, ?_⟩
  · rw [Built.nodesAmong_append, ← Output.Element.extend_extend, ← htarget', he,
      ← hresult, hmore.result]
  · rw [hcalls, hparts.calls, hmore.calls, requestsAmong_append, answers_append, htarget']

/-- A step that depends on what something without calls comes to. -/
theorem after {α : Type} {x : Outcome κ α} (hx : x.calls = []) {step : α → Step κ}
    (h : ∀ a, x.result = .ok a → p.Carries (step a) work) :
    p.Carries (fun target => x.andThen fun a => step a target) work := by
  intro target e he
  obtain ⟨a, ha, hresult⟩ := Outcome.exists_of_andThen he
  obtain ⟨parts, hparts⟩ := h a ha target e hresult
  obtain ⟨hresult', hcalls⟩ := Outcome.andThen_of_result ha fun a => step a target
  refine ⟨parts, hparts.unfolds, hresult'.trans hparts.result, ?_⟩
  rw [hcalls, hx, List.nil_append, hparts.calls]

theorem forEach {step : Value → Step κ} {work : Value → List (Markup.Node × Value)}
    (h : ∀ item, p.Carries (step item) (work item)) (items : List Value) :
    p.Carries (forEach step items) (items.flatMap work) := by
  induction items with
  | nil => exact nil
  | cons item items ih => exact (h item).andThen ih

/-- A node that asks for further nodes. -/
theorem go {todo : List (Markup.Node × Value)} (hn : p.action? context n = some (.go todo))
    (h : p.Carries step todo) : p.Carries step [(n, context)] := by
  intro target e he
  obtain ⟨parts, hparts⟩ := h target e he
  have hunfolds : p.Unfolds (todo ++ []) parts := by
    rw [List.append_nil]
    exact hparts.unfolds
  exact ⟨parts, .go hn hunfolds, hparts.result, hparts.calls⟩

theorem text {s : String} (hn : p.action? context n = some (.text s)) :
    p.Carries (fun target => .ok (target.append (.text s))) [(n, context)] := by
  intro target e _
  refine ⟨[.text s], .text hn .nil, rfl, ?_⟩
  rw [requestsAmong, requestsAmong]
  rfl

/-- An element that is built apart from the target and appended to it. -/
theorem build {source : Markup.Element} {x : Outcome κ (Output.Element κ)}
    (hn : p.action? context n = some (.build source)) (hx : p.Completes source context x) :
    p.Carries (fun target => x.andThen fun e => .ok (target.append (.element e)))
      [(n, context)] := by
  intro target e he
  obtain ⟨built, hbuilt, -⟩ := Outcome.exists_of_andThen he
  obtain ⟨b, hb⟩ := hx built hbuilt
  obtain ⟨hresult, hcalls⟩ := Outcome.andThen_of_result hb.result
    fun e => .ok (target.append (.element e))
  -- it asked for its calls before it was appended, and appending asks for none
  obtain ⟨bsource, bcontext, shell, content⟩ := b
  obtain ⟨rfl, rfl, hshell, hcontent⟩ := hb.builds
  refine ⟨[.element ⟨bsource, bcontext, shell, content⟩], .build hn hshell hcontent .nil, hresult,
    ?_⟩
  rw [hcalls, hb.calls, requestsAmong, requestsAmong, List.append_nil]
  exact List.append_nil _

/-- A call of a directive leaves the target as it is. -/
theorem call (hp : p.owner.Observing) {name : String} {attributes : List (String × String)}
    {function : String} (hname : attributeOf? attributes "name" = some function)
    (hn : p.action? context n = some (.call function)) :
    p.Carries (p.callFunction name attributes context) [(n, context)] := by
  intro target e _
  refine ⟨[.call function context], .call hn .nil, ?_, ?_⟩
  · rw [nodesAmong, nodesAmong, Output.Element.extend_nil, callFunction, hname]
    simp only [hp.call?_eq]
    cases p.owner.request? function target context <;> rfl
  · rw [requestsAmong, requestsAmong, callFunction, hname]
    simp only [hp.call?_eq]
    cases p.owner.request? function target context with
    | none => rfl
    | some c =>
      simp [Outcome.calls_called, answers, Request.call]

end Carries

/-! ### Elements -/

theorem copyAttribute_result (p : Producer κ) (context : Value) (e : Output.Element κ)
    (a : String × String) : ∃ e', (p.copyAttribute context e a).result = .ok e' ∧
      e'.children = e.children ∧ (p.copyAttribute context e a).calls = [] := by
  rw [copyAttribute]
  split
  · exact ⟨e, rfl, rfl, rfl⟩
  · split
    · exact ⟨_, rfl, rfl, rfl⟩
    · exact ⟨e, rfl, rfl, rfl⟩
  · exact ⟨_, rfl, rfl, rfl⟩

/-- Attributes are copied without any call, and the children stay. -/
theorem copyAttributes_result (p : Producer κ) (context : Value) (as : List (String × String)) :
    ∀ e : Output.Element κ, ∃ e', (p.copyAttributes context e as).result = .ok e' ∧
      e'.children = e.children ∧ (p.copyAttributes context e as).calls = [] := by
  induction as with
  | nil => exact fun e => ⟨e, rfl, rfl, rfl⟩
  | cons a as ih =>
    intro e
    obtain ⟨e', hresult, hchildren, hcalls⟩ := p.copyAttribute_result context e a
    obtain ⟨e'', hresult', hchildren', hcalls'⟩ := ih e'
    have hboth := Outcome.andThen_of_result hresult (p.copyAttributes context · as)
    refine ⟨e'', ?_, hchildren'.trans hchildren, ?_⟩
    · rw [copyAttributes, Outcome.bind_eq, hboth.1, hresult']
    · rw [copyAttributes, Outcome.bind_eq, hboth.2, hcalls, hcalls', List.append_nil]

/-- The call for a finished element leaves it as it is. -/
theorem finishElement_eq (hp : p.owner.Observing) (b : Built κ) :
    (p.finishElement b.source.attributes b.context b.element).result = .ok b.element ∧
    (p.finishElement b.source.attributes b.context b.element).calls =
      p.answers ((p.finishingCall? b.origin).map .finishing).toList := by
  rw [finishElement, finishingCall?]
  cases hpost : p.postproduction? b.source.attributes with
  | none =>
    have hnone : p.postproduction? b.origin.source.attributes = none := hpost
    rw [hnone]
    exact ⟨rfl, rfl⟩
  | some function =>
    have hsome : p.postproduction? b.origin.source.attributes = some function := hpost
    rw [hsome, Option.bind_some]
    simp only [hp.call?_eq, Built.origin]
    cases p.owner.request? function b.element b.context with
    | none => exact ⟨rfl, rfl⟩
    | some c => exact ⟨rfl, by simp [Outcome.calls_called, answers, Request.call]⟩

/-- An element is built when its attributes are copied, its children are carried out on it, and the
call for the finished element is made. -/
theorem completes_of_carries (hp : p.owner.Observing) {source : Markup.Element} {context : Value}
    {step : Step κ} (h : p.Carries step (inContext context source.children)) :
    p.Completes source context
      ((p.copyAttributes context ⟨source.name, [], [], []⟩ source.attributes).andThen fun e =>
        (step e).andThen (p.finishElement source.attributes context)) := by
  intro e he
  obtain ⟨shell, hshell, hchildren, hcopied⟩ :=
    p.copyAttributes_result context source.attributes ⟨source.name, [], [], []⟩
  obtain ⟨hresult, hcalls⟩ := Outcome.andThen_of_result hshell
    fun e => (step e).andThen (p.finishElement source.attributes context)
  rw [hresult] at he
  obtain ⟨filled, hfilled, -⟩ := Outcome.exists_of_andThen he
  obtain ⟨content, hcontent⟩ := h shell filled hfilled
  -- the shell has no children, so what is put into it is all that it contains
  have helement : shell.extend (nodesAmong content) =
      Built.element ⟨source, context, shell, content⟩ := by
    rw [Built.element, Output.Element.extend, hchildren, List.nil_append]
  obtain ⟨hstep, hstepCalls⟩ := Outcome.andThen_of_result
    (hcontent.result.trans (congrArg Except.ok helement))
    (p.finishElement source.attributes context)
  obtain ⟨hfinish, hfinishCalls⟩ := finishElement_eq hp ⟨source, context, shell, content⟩
  refine ⟨⟨source, context, shell, content⟩, ⟨rfl, rfl, hshell, hcontent.unfolds⟩, ?_, ?_⟩
  · rw [hresult, hstep, hfinish]
  · rw [hcalls, hcopied, List.nil_append, hstepCalls, hcontent.calls, hfinishCalls, requests,
      answers_append]

/-! ### Directives -/

theorem calls_testHolds (attributes : List (String × String)) (context : Value) :
    (testHolds attributes context : Outcome κ Bool).calls = [] := by
  rw [testHolds]
  split <;> rfl

theorem calls_loopItems (name : String) (attributes : List (String × String)) (context : Value) :
    (loopItems name attributes context : Outcome κ (List Value)).calls = [] := by
  rw [loopItems]
  split
  · rfl
  · split <;> rfl

section

variable {insert : Insert κ} {context : Value} {name : String}

/-- Whether inserted snippets are built from the fragments of the registry. -/
def Inserts (p : Producer κ) (insert : Insert κ) : Prop :=
  ∀ name context e, (insert name context).result = .ok e →
    ∃ fragment, p.registry.get? name = some fragment ∧
      p.Completes fragment context (insert name context)

theorem carries_callFunction (hp : p.owner.Observing) (hname : p.directive? name = some .call)
    (attributes : List (String × String)) (children : List Markup.Node) :
    p.Carries (p.callFunction name attributes context)
      [(.element ⟨name, attributes, children⟩, context)] := by
  cases hfunction : attributeOf? attributes "name" with
  | none =>
    rw [callFunction_nameless p hfunction]
    exact .go (by simp only [action?, hname, hfunction]) (.warn _)
  | some function => exact .call hp hfunction (by simp only [action?, hname, hfunction])

theorem carries_insertSnippet (hinsert : p.Inserts insert)
    (hname : p.directive? name = some .insertion) (attributes : List (String × String))
    (children : List Markup.Node) :
    p.Carries (insertSnippet insert name attributes context)
      [(.element ⟨name, attributes, children⟩, context)] := by
  cases hsnippet : attributeOf? attributes "name" with
  | none =>
    rw [insertSnippet_nameless insert hsnippet]
    exact .go (by simp only [action?, hname, hsnippet]) (.warn _)
  | some snippet =>
    rw [insertSnippet_named insert hsnippet]
    -- the fragment is known once the snippet is produced
    intro target e he
    obtain ⟨built, hbuilt, -⟩ := Outcome.exists_of_andThen he
    obtain ⟨fragment, hfragment, hcompletes⟩ := hinsert _ _ built hbuilt
    refine Carries.build ?_ hcompletes target e he
    simp only [action?, hname, hsnippet, hfragment, Option.map_some]

theorem carries_branch {attributes : List (String × String)} {children : List Markup.Node}
    (hnamed : ∀ tag, p.Carries (p.appendNamed insert tag children context)
      (inContext context (Markup.Element.contentsNamed ⟨name, attributes, children⟩ tag)))
    (hothers : ∀ tag, p.Carries (p.appendOthers insert tag children context)
      (inContext context (children.filter fun n => !n.element?.any fun c => c.name == tag)))
    (holds : Bool) :
    p.Carries (p.branch insert context children holds)
      (inContext context (p.chosen ⟨name, attributes, children⟩ holds)) := by
  rw [branch, chosen]
  split
  · split
    · exact hnamed _
    · exact hothers _
  · exact hnamed _

end

/-! ### Fragments -/

section

variable {insert : Insert κ}

-- by the recursion of the producer over the nodes; what inserted snippets come to is given
mutual

theorem completes_build (hp : p.owner.Observing) (hinsert : p.Inserts insert) :
    ∀ (e : Markup.Element) (context : Value), p.Completes e context (p.build insert e context)
  | ⟨name, attributes, children⟩, context => by
    rw [build]
    exact completes_of_carries hp (carries_nodes hp hinsert children context)

theorem carries_node (hp : p.owner.Observing) (hinsert : p.Inserts insert) :
    ∀ (n : Markup.Node) (context : Value),
      p.Carries (p.appendNode insert n context) [(n, context)]
  | .text s, context => by
    by_cases hs : Text.allBlank s.toList = true
    · rw [appendNode_blank p insert context hs]
      exact .go (by rw [action?, if_pos hs]) .nil
    · rw [appendNode_text p insert context hs]
      exact .text (by rw [action?, if_neg hs])
  | .element ⟨name, attributes, children⟩, context => by
    cases hname : p.directive? name with
    | none =>
      rw [appendNode_literal p insert context hname]
      exact .build (by simp only [action?, hname])
        (completes_build hp hinsert ⟨name, attributes, children⟩ context)
    | some directive =>
      cases directive with
      | conditional =>
        rw [appendNode_conditional p insert context hname]
        refine .after (calls_testHolds attributes context) fun holds hholds => .go ?_
          (carries_branch (fun tag => carries_named hp hinsert tag name attributes children context)
            (fun tag => carries_others hp hinsert tag children context) holds)
        simp only [action?, hname, hholds]
      | loop =>
        rw [appendNode_loop p insert context hname]
        refine .after (calls_loopItems name attributes context) fun items hitems => .go ?_
          (.forEach (fun item => carries_nodes hp hinsert children item) items)
        simp only [action?, hname, hitems]
      | call =>
        rw [appendNode_call p insert context hname]
        exact carries_callFunction hp hname attributes children
      | insertion =>
        rw [appendNode_insertion p insert context hname]
        exact carries_insertSnippet hinsert hname attributes children

theorem carries_nodes (hp : p.owner.Observing) (hinsert : p.Inserts insert) :
    ∀ (ns : List Markup.Node) (context : Value),
      p.Carries (p.appendNodes insert ns context) (inContext context ns)
  | [], context => by
    rw [appendNodes_nil]
    exact .nil
  | n :: ns, context => by
    rw [appendNodes_cons]
    exact (carries_node hp hinsert n context).andThen (carries_nodes hp hinsert ns context)

theorem carries_named (hp : p.owner.Observing) (hinsert : p.Inserts insert) (tag name : String)
    (attributes : List (String × String)) :
    ∀ (ns : List Markup.Node) (context : Value),
      p.Carries (p.appendNamed insert tag ns context)
        (inContext context (Markup.Element.contentsNamed ⟨name, attributes, ns⟩ tag))
  | [], context => by
    rw [appendNamed_nil]
    exact .nil
  | .text s :: ns, context => by
    rw [appendNamed_text, Markup.Element.contentsNamed_text]
    exact carries_named hp hinsert tag name attributes ns context
  | .element ⟨cname, cattributes, children⟩ :: ns, context => by
    rw [appendNamed_element, Markup.Element.contentsNamed_element]
    split
    · exact carries_nodes hp hinsert children context
    · exact carries_named hp hinsert tag name attributes ns context

theorem carries_others (hp : p.owner.Observing) (hinsert : p.Inserts insert) (tag : String) :
    ∀ (ns : List Markup.Node) (context : Value),
      p.Carries (p.appendOthers insert tag ns context)
        (inContext context (ns.filter fun n => !n.element?.any fun c => c.name == tag))
  | [], context => by
    rw [appendOthers_nil]
    exact .nil
  | .text s :: ns, context => by
    rw [appendOthers_text, List.filter_cons_of_pos rfl]
    exact (carries_node hp hinsert (.text s) context).andThen
      (carries_others hp hinsert tag ns context)
  | .element ⟨name, attributes, children⟩ :: ns, context => by
    rw [appendOthers_element]
    by_cases hname : name = tag
    · rw [if_pos hname, List.filter_cons_of_neg (by simp [Markup.Node.element?, hname])]
      exact carries_others hp hinsert tag ns context
    · rw [if_neg hname, List.filter_cons_of_pos (by simp [Markup.Node.element?, hname])]
      exact (carries_node hp hinsert (.element ⟨name, attributes, children⟩) context).andThen
        (carries_others hp hinsert tag ns context)

end

end

/-! ### Snippets -/

end Producer

end Transclude
