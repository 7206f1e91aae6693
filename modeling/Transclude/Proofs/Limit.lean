/-
The limit on nested insertions is a threshold.

Snippets may insert each other without end, and the limit cuts this short.  Apart from that it has
no part in what is produced: a production that stays within the limit is the same with every higher
limit.

* `Outcome.CutAt` — an outcome is cut off at a limit, or it is another outcome and not cut off;
* `cutAt_produceAt` — a production with a limit beside the same production with a higher limit;
* `produce_threshold` — a production that is not cut off stays as it is with every higher limit, one
  that is cut off is so with every lower limit, and the depth in the error is one above the limit.

Design notes: one relation of two runs carries all three statements.  Both runs go through the same
fragment with the same context, so they can only part where a snippet is inserted, and there the
error of the lower run ends it.  A run related to itself tells the depth in its error.
-/
import Transclude.Production.Producer

namespace Transclude

namespace Production.Outcome

variable {κ α β : Type} {limit : Nat} {x y : Outcome κ α}

/-- Whether an outcome is the error that insertions are nested too deeply. -/
def AtLimit (x : Outcome κ α) : Prop :=
  ∃ name depth, x.result = .error (.nestedTooDeeply name depth)

/-- Whether an outcome is cut off one insertion above a limit, or else is `y`. -/
inductive CutAt (limit : Nat) (x y : Outcome κ α) : Prop where
  | cut (name : String) (h : x.result = .error (.nestedTooDeeply name (limit + 1)))
  | same (h : ¬x.AtLimit) (heq : x = y)

theorem not_atLimit_of_ok {a : α} (h : x.result = .ok a) : ¬x.AtLimit := by
  rintro ⟨name, depth, hx⟩
  rw [h] at hx
  cases hx

namespace CutAt

theorem refl (h : ¬x.AtLimit) : CutAt limit x x := .same h rfl

theorem ok (a : α) : CutAt limit (.ok a : Outcome κ α) (.ok a) := refl (not_atLimit_of_ok rfl)

/-- What is not cut off is the other outcome. -/
theorem eq (h : CutAt limit x y) (hx : ¬x.AtLimit) : x = y := by
  cases h with
  | cut name h => exact absurd ⟨name, _, h⟩ hx
  | same _ heq => exact heq

/-- What is cut off is so one insertion above the limit. -/
theorem depth_eq (h : CutAt limit x y) {name : String} {depth : Nat}
    (hx : x.result = .error (.nestedTooDeeply name depth)) : depth = limit + 1 := by
  cases h with
  | cut name' h =>
    rw [h] at hx
    cases hx
    rfl
  | same hlimit _ => exact absurd ⟨name, depth, hx⟩ hlimit

/-- Two runs that go on with the same result can only part later. -/
theorem andThen (h : CutAt limit x y) {f g : α → Outcome κ β}
    (hfg : ∀ a, CutAt limit (f a) (g a)) : CutAt limit (x.andThen f) (y.andThen g) := by
  cases h with
  | cut name h =>
    refine .cut name ?_
    rw [Outcome.andThen, h]
  | same hx heq =>
    subst heq
    cases hresult : x.result with
    | error e =>
      have hend : ∀ f : α → Outcome κ β, x.andThen f = ⟨x.notices, .error e⟩ := by
        intro f
        rw [Outcome.andThen, hresult]
      rw [hend f, hend g]
      refine refl ?_
      rintro ⟨name, depth, h⟩
      cases h
      exact hx ⟨name, depth, hresult⟩
    | ok a =>
      have hgo : ∀ f : α → Outcome κ β,
          x.andThen f = ⟨x.notices ++ (f a).notices, (f a).result⟩ := by
        intro f
        rw [Outcome.andThen, hresult]
      rw [hgo f, hgo g]
      cases hfg a with
      | cut name h => exact .cut name h
      | same hf heq =>
        rw [← heq]
        exact refl hf

end CutAt

end Production.Outcome

namespace Producer

open Production (Outcome)
open Production.Outcome (AtLimit CutAt not_atLimit_of_ok)

variable {κ : Type}

/-- The producer with another limit. -/
def limitedTo (p : Producer κ) (limit : Nat) : Producer κ := { p with maxDepth := limit }

/-! ### What nothing but an insertion does -/

variable (p : Producer κ) (limit limit' : Nat)

theorem cutAt_copyAttribute (context : Value) (e : Output.Element κ) (a : String × String) :
    CutAt limit ((p.limitedTo limit).copyAttribute context e a)
      ((p.limitedTo limit').copyAttribute context e a) := by
  have hsame : (p.limitedTo limit').copyAttribute context e a =
      (p.limitedTo limit).copyAttribute context e a := rfl
  rw [hsame]
  refine .refl ?_
  rw [copyAttribute]
  split
  · exact not_atLimit_of_ok rfl
  · split
    · exact not_atLimit_of_ok rfl
    · exact not_atLimit_of_ok rfl
  · exact not_atLimit_of_ok rfl

theorem cutAt_copyAttributes (context : Value) (e : Output.Element κ)
    (as : List (String × String)) :
    CutAt limit ((p.limitedTo limit).copyAttributes context e as)
      ((p.limitedTo limit').copyAttributes context e as) := by
  induction as generalizing e with
  | nil => exact .ok e
  | cons a as ih =>
    rw [copyAttributes, copyAttributes]
    exact (cutAt_copyAttribute p limit limit' context e a).andThen ih

theorem cutAt_finishElement (attributes : List (String × String)) (context : Value)
    (e : Output.Element κ) :
    CutAt limit ((p.limitedTo limit).finishElement attributes context e)
      ((p.limitedTo limit').finishElement attributes context e) := by
  have hsame : (p.limitedTo limit').finishElement attributes context e =
      (p.limitedTo limit).finishElement attributes context e := rfl
  rw [hsame]
  refine .refl ?_
  rw [finishElement]
  split
  · exact not_atLimit_of_ok rfl
  · split
    · exact not_atLimit_of_ok rfl
    · exact not_atLimit_of_ok rfl

theorem cutAt_callFunction (name : String) (attributes : List (String × String))
    (context : Value) (target : Output.Element κ) :
    CutAt limit ((p.limitedTo limit).callFunction name attributes context target)
      ((p.limitedTo limit').callFunction name attributes context target) := by
  have hsame : (p.limitedTo limit').callFunction name attributes context target =
      (p.limitedTo limit).callFunction name attributes context target := rfl
  rw [hsame]
  refine .refl ?_
  rw [callFunction]
  split
  · exact not_atLimit_of_ok rfl
  · split
    · exact not_atLimit_of_ok rfl
    · exact not_atLimit_of_ok rfl

theorem not_atLimit_testHolds (attributes : List (String × String)) (context : Value) :
    ¬(testHolds attributes context : Outcome κ Bool).AtLimit := by
  rw [testHolds]
  split
  · exact not_atLimit_of_ok rfl
  · rintro ⟨name, depth, h⟩
    cases h

theorem not_atLimit_loopItems (name : String) (attributes : List (String × String))
    (context : Value) : ¬(loopItems name attributes context : Outcome κ (List Value)).AtLimit := by
  rw [loopItems]
  split
  · exact not_atLimit_of_ok rfl
  · split
    · exact not_atLimit_of_ok rfl
    · exact not_atLimit_of_ok rfl
    · exact not_atLimit_of_ok rfl

/-- Two loops part no earlier than what they carry out for an item. -/
theorem cutAt_forEach {step step' : Value → Output.Element κ → Outcome κ (Output.Element κ)}
    (h : ∀ item target, CutAt limit (step item target) (step' item target)) (items : List Value)
    (target : Output.Element κ) :
    CutAt limit (forEach step items target) (forEach step' items target) := by
  induction items generalizing target with
  | nil => exact .ok target
  | cons item items ih =>
    rw [forEach, forEach]
    exact (h item target).andThen ih

/-! ### Fragments -/

section

variable {p limit limit'} {insert insert' : Insert κ}

theorem cutAt_insertSnippet
    (h : ∀ name context, CutAt limit (insert name context) (insert' name context)) (name : String)
    (attributes : List (String × String)) (context : Value) (target : Output.Element κ) :
    CutAt limit (insertSnippet insert name attributes context target)
      (insertSnippet insert' name attributes context target) := by
  rw [insertSnippet, insertSnippet]
  split
  · exact .refl (not_atLimit_of_ok rfl)
  · exact (h _ _).andThen fun e => .ok _

mutual

/-- Two runs of an element part no earlier than an inserted snippet. -/
theorem cutAt_build
    (h : ∀ name context, CutAt limit (insert name context) (insert' name context)) :
    ∀ (e : Markup.Element) (context : Value),
    CutAt limit ((p.limitedTo limit).build insert e context)
      ((p.limitedTo limit').build insert' e context)
  | ⟨name, attributes, children⟩, context => by
    rw [build, build]
    exact (cutAt_copyAttributes p limit limit' context _ attributes).andThen fun e =>
      (cutAt_nodes h children context e).andThen fun e' =>
        cutAt_finishElement p limit limit' attributes context e'

/-- Two runs of a node part no earlier than an inserted snippet. -/
theorem cutAt_node
    (h : ∀ name context, CutAt limit (insert name context) (insert' name context)) :
    ∀ (n : Markup.Node) (context : Value) (target : Output.Element κ),
    CutAt limit ((p.limitedTo limit).appendNode insert n context target)
      ((p.limitedTo limit').appendNode insert' n context target)
  | .text s, context, target => by
    by_cases hs : Text.allBlank s.toList = true
    · rw [appendNode_blank _ _ _ hs, appendNode_blank _ _ _ hs]
      exact .ok target
    · rw [appendNode_text _ _ _ hs, appendNode_text _ _ _ hs]
      exact .ok _
  | .element ⟨name, attributes, children⟩, context, target => by
    cases hname : p.directive? name with
    | none =>
      rw [appendNode_literal (p.limitedTo limit) _ _ hname,
        appendNode_literal (p.limitedTo limit') _ _ hname]
      exact (cutAt_build h ⟨name, attributes, children⟩ context).andThen fun e => .ok _
    | some directive =>
      cases directive with
      | conditional =>
        rw [appendNode_conditional (p.limitedTo limit) _ _ hname,
          appendNode_conditional (p.limitedTo limit') _ _ hname]
        refine CutAt.andThen (.refl (not_atLimit_testHolds attributes context)) fun holds => ?_
        have hreserved : (p.limitedTo limit').reserved = (p.limitedTo limit).reserved := rfl
        rw [branch, branch, hreserved]
        split
        · split
          · exact cutAt_named h _ children context target
          · exact cutAt_others h _ children context target
        · exact cutAt_named h _ children context target
      | loop =>
        rw [appendNode_loop (p.limitedTo limit) _ _ hname,
          appendNode_loop (p.limitedTo limit') _ _ hname]
        exact CutAt.andThen (.refl (not_atLimit_loopItems name attributes context)) fun items =>
          cutAt_forEach limit (cutAt_nodes h children) items target
      | call =>
        rw [appendNode_call (p.limitedTo limit) _ _ hname,
          appendNode_call (p.limitedTo limit') _ _ hname]
        exact cutAt_callFunction p limit limit' name attributes context target
      | insertion =>
        rw [appendNode_insertion (p.limitedTo limit) _ _ hname,
          appendNode_insertion (p.limitedTo limit') _ _ hname]
        exact cutAt_insertSnippet h name attributes context target

theorem cutAt_nodes
    (h : ∀ name context, CutAt limit (insert name context) (insert' name context)) :
    ∀ (ns : List Markup.Node) (context : Value) (target : Output.Element κ),
    CutAt limit ((p.limitedTo limit).appendNodes insert ns context target)
      ((p.limitedTo limit').appendNodes insert' ns context target)
  | [], context, target => by
    rw [appendNodes_nil, appendNodes_nil]
    exact .ok target
  | n :: ns, context, target => by
    rw [appendNodes_cons, appendNodes_cons]
    exact (cutAt_node h n context target).andThen (cutAt_nodes h ns context)

theorem cutAt_named
    (h : ∀ name context, CutAt limit (insert name context) (insert' name context))
    (tag : String) :
    ∀ (ns : List Markup.Node) (context : Value) (target : Output.Element κ),
      CutAt limit ((p.limitedTo limit).appendNamed insert tag ns context target)
        ((p.limitedTo limit').appendNamed insert' tag ns context target)
  | [], context, target => by
    rw [appendNamed_nil, appendNamed_nil]
    exact .ok target
  | .text s :: ns, context, target => by
    rw [appendNamed_text, appendNamed_text]
    exact cutAt_named h tag ns context target
  | .element ⟨name, attributes, children⟩ :: ns, context, target => by
    rw [appendNamed_element, appendNamed_element]
    split
    · exact cutAt_nodes h children context target
    · exact cutAt_named h tag ns context target

theorem cutAt_others
    (h : ∀ name context, CutAt limit (insert name context) (insert' name context))
    (tag : String) :
    ∀ (ns : List Markup.Node) (context : Value) (target : Output.Element κ),
      CutAt limit ((p.limitedTo limit).appendOthers insert tag ns context target)
        ((p.limitedTo limit').appendOthers insert' tag ns context target)
  | [], context, target => by
    rw [appendOthers_nil, appendOthers_nil]
    exact .ok target
  | .text s :: ns, context, target => by
    rw [appendOthers_text, appendOthers_text]
    exact (cutAt_node h (.text s) context target).andThen (cutAt_others h tag ns context)
  | .element ⟨name, attributes, children⟩ :: ns, context, target => by
    rw [appendOthers_element, appendOthers_element]
    split
    · exact cutAt_others h tag ns context target
    · exact (cutAt_node h (.element ⟨name, attributes, children⟩) context target).andThen
        (cutAt_others h tag ns context)

end

end

/-! ### Snippets -/

/-- A production at a depth, with a limit and with one that is not lower: the first is cut off, or
they are the same. -/
theorem cutAt_produceAt {limit limit' : Nat} (hle : limit ≤ limit') (depth : Nat)
    (hdepth : depth ≤ limit + 1) (name : String) (context : Value) :
    CutAt limit ((p.limitedTo limit).produceAt depth name context)
      ((p.limitedTo limit').produceAt depth name context) := by
  rw [produceAt]
  split
  · -- the depth is the first one above the limit
    rename_i habove
    have hdepth : depth = limit + 1 := by
      simp only [limitedTo] at habove
      omega
    exact .cut name (by rw [hdepth]; rfl)
  · rename_i hwithin
    have hdepth : depth ≤ limit := by
      simp only [limitedTo] at hwithin
      omega
    have hwithin' : ¬(p.limitedTo limit').maxDepth < depth := by
      simp only [limitedTo]
      omega
    rw [produceAt, if_neg hwithin']
    have hregistry : (p.limitedTo limit').registry = (p.limitedTo limit).registry := rfl
    rw [hregistry]
    cases (p.limitedTo limit).registry.get? name with
    | none =>
      refine .refl ?_
      rintro ⟨name', depth', h⟩
      cases h
    | some fragment =>
      exact cutAt_build (cutAt_produceAt hle (depth + 1) (by omega)) fragment context
termination_by limit + 1 - depth

/-- **The limit is a threshold.**  A production that does not end at its limit ends in the same way
with every higher limit; one that ends at its limit does so with every lower limit; and an error at
the limit carries the depth that is one above it. -/
theorem produce_threshold (name : String) (context : Value) (limit : Nat) :
    (¬((p.limitedTo limit).produce name context).AtLimit → ∀ limit' ≥ limit,
      (p.limitedTo limit').produce name context = (p.limitedTo limit).produce name context) ∧
    (((p.limitedTo limit).produce name context).AtLimit → ∀ limit' < limit,
      ((p.limitedTo limit').produce name context).AtLimit) ∧
    ∀ snippet depth, ((p.limitedTo limit).produce name context).result =
      .error (.nestedTooDeeply snippet depth) → depth = limit + 1 := by
  have hcut : ∀ low high, low ≤ high → CutAt low ((p.limitedTo low).produce name context)
      ((p.limitedTo high).produce name context) := by
    intro low high hle
    exact cutAt_produceAt p hle 0 (Nat.zero_le _) name context
  refine ⟨?_, ?_, ?_⟩
  · intro hend limit' hle
    exact ((hcut limit limit' hle).eq hend).symm
  · intro hend limit' hlt
    refine Classical.byContradiction fun hlow => ?_
    have heq := (hcut limit' limit (Nat.le_of_lt hlt)).eq hlow
    rw [← heq] at hend
    exact hlow hend
  · intro snippet depth hend
    exact (hcut limit limit (Nat.le_refl limit)).depth_eq hend

/-- A snippet that inserts another one is produced with every limit but zero. -/
theorem produce_threshold_of_insertion :
    let a : Markup.Element := ⟨"p", [], [.element ⟨"dht:insert-snippet", [("name", "b")], []⟩]⟩
    let p : Producer Unit := ⟨⟨[("a", a), ("b", ⟨"i", [], []⟩)]⟩, default, 64, .none⟩
    (∀ limit ≥ 1, (p.limitedTo limit).produce "a" .null =
      .ok ⟨"p", [], [.element ⟨"i", [], [], []⟩], []⟩) ∧
    ((p.limitedTo 0).produce "a" .null).result = .error (.nestedTooDeeply "b" 1) := by
  intro a p
  have ha : ∀ limit, (p.limitedTo limit).registry.get? "a" = some a := fun _ => rfl
  have hone : (p.limitedTo 1).produce "a" .null =
      .ok ⟨"p", [], [.element ⟨"i", [], [], []⟩], []⟩ := by
    have hb : ∀ context, (p.limitedTo 1).produceAt 1 "b" context = .ok ⟨"i", [], [], []⟩ := by
      intro context
      rw [produceAt_eq_build (p.limitedTo 1) (Nat.le_refl 1) rfl]
      rfl
    rw [produce_eq_build _ (ha 1) hb]
    -- evaluation needs the trees themselves in place of their names
    simp only [a, p]
    rfl
  have hzero : ((p.limitedTo 0).produce "a" .null).result =
      .error (.nestedTooDeeply "b" 1) := by
    have hb : ∀ context, (p.limitedTo 0).produceAt 1 "b" context =
        .fail (.nestedTooDeeply "b" 1) := by
      intro context
      rw [produceAt, if_pos]
      exact Nat.zero_lt_one
    rw [produce_eq_build _ (ha 0) hb]
    simp only [a, p]
    rfl
  refine ⟨fun limit hlimit => ?_, hzero⟩
  have hend : ¬((p.limitedTo 1).produce "a" .null).AtLimit := by
    rw [hone]
    exact not_atLimit_of_ok rfl
  rw [(produce_threshold p "a" .null 1).1 hend limit hlimit, hone]

end Producer

end Transclude
