/-
Documents as lists of events.

Events can be told to be those of one tree without building it: by the number of elements that are
open before each of them.  Read in document order, a tree is such a list again, and what a list of
events says is the same list up to how it is written: an empty element is a start and an end tag,
CDATA is text, texts next to each other are one text, and what is neither element nor text is left
out.

* `levels` — the events with the number of elements that are open before each;
* `WellFormed`, `content` — when events are those of one tree, and what they say;
* `Element.events` — a tree in document order;
* `joinTexts_append`, `Apart.joinTexts_eq` — texts are joined from any side, and those that stand
  apart stay as they are;
* `Element.textsApart_of_apart` — a tree has texts next to each other only where its events have.
-/
import Mathlib.Algebra.Ring.Int.Defs
import Mathlib.Data.List.Chain
import Transclude.Markup.Event
import Transclude.Proofs.Elements

namespace Transclude.Markup

/-! ### Events at their levels -/

namespace Event

/-- By how much an event changes the number of open elements. -/
def rise : Event → Int
  | .opening _ _ => 1
  | .closing => -1
  | _ => 0

/-- Whether an element begins. -/
def begins : Event → Bool
  | .opening _ _ => true
  | .empty _ _ => true
  | _ => false

/-- The text that an event brings. -/
def text? : Event → Option String
  | .text s => some s
  | .cdata s => some s
  | _ => none

/-- An event by the tags and texts it stands for. -/
def spelledOut : Event → List Event
  | .opening name attrs => [.opening name attrs]
  | .empty name attrs => [.opening name attrs, .closing]
  | .closing => [.closing]
  | .text s => [.text s]
  | .cdata s => [.text s]
  | .other => []

/-- What an event adds to the tree where so many elements are open: text outside of all elements
adds nothing. -/
def adds (e : Event) (level : Int) : List Event :=
  if level = 0 ∧ e.text?.isSome then [] else e.spelledOut

theorem adds_of_text?_eq_none {e : Event} (h : e.text? = none) (level : Int) :
    e.adds level = e.spelledOut := by simp [adds, h]

theorem of_text? {e : Event} {s : String} (h : e.text? = some s) :
    e.rise = 0 ∧ e.begins = false ∧ e.spelledOut = [.text s] := by
  cases e <;> cases h <;> exact ⟨rfl, rfl, rfl⟩

/-- Whether an event is allowed where so many elements are open: an end tag needs an open element,
and outside of all elements texts are blank. -/
def Fits (e : Event) (level : Int) : Prop :=
  0 ≤ level + e.rise ∧ (level = 0 → e.text?.all (fun s => Text.allBlank s.toList) = true)

end Event

/-- The number of elements that are open after some events. -/
def depth (es : List Event) : Int := (es.map Event.rise).sum

/-- The events with the number of elements that are open before each, where `level` are at first. -/
def levels (level : Int) : List Event → List (Event × Int)
  | [] => []
  | e :: es => (e, level) :: levels (level + e.rise) es

/-- The number of top-level elements that some events begin. -/
def rootCount (es : List Event) : Nat :=
  (levels 0 es).countP fun x => x.1.begins && x.2 == 0

/-- Whether events are those of one tree. -/
structure WellFormed (es : List Event) : Prop where
  /-- No end tag comes before its start tag. -/
  nested : ∀ x ∈ levels 0 es, 0 ≤ x.2 + x.1.rise
  closed : depth es = 0
  root : rootCount es = 1
  /-- Outside of the root there is only blank text. -/
  blank : ∀ x ∈ levels 0 es, x.2 = 0 → x.1.text?.all (fun s => Text.allBlank s.toList) = true

/-- An event in front of others; a text joins a text that follows it. -/
def joinEvent : Event → List Event → List Event
  | .text s, .text t :: es => .text (s ++ t) :: es
  | e, es => e :: es

/-- The events with each run of texts as one text. -/
def joinTexts : List Event → List Event
  | [] => []
  | e :: es => joinEvent e (joinTexts es)

/-- The tags and texts of the top-level elements, with each run of texts as one text. -/
def content (es : List Event) : List Event :=
  joinTexts ((levels 0 es).flatMap fun x => x.1.adds x.2)

namespace Element

mutual

/-- A tree in document order. -/
def events : Element → List Event
  | ⟨name, attributes, children⟩ => .opening name attributes :: (eventsAmong children ++ [.closing])

/-- Some nodes in document order. -/
def eventsAmong : List Node → List Event
  | [] => []
  | .text s :: ns => .text s :: eventsAmong ns
  | .element e :: ns => events e ++ eventsAmong ns

end

/-- Whether no element of a tree has two texts next to each other. -/
def TextsApart (e : Element) : Prop :=
  ∀ d ∈ e.subtrees, d.children.IsChain fun n m => n.element?.isSome ∨ m.element?.isSome

theorem eventsAmong_append (ns ms : List Node) :
    eventsAmong (ns ++ ms) = eventsAmong ns ++ eventsAmong ms := by
  induction ns with
  | nil => rfl
  | cons n ns ih =>
    cases n with
    | text s => rw [List.cons_append, eventsAmong, eventsAmong, ih, List.cons_append]
    | element e => rw [List.cons_append, eventsAmong, eventsAmong, ih, List.append_assoc]

end Element

theorem levels_concat (level : Int) (es : List Event) (e : Event) :
    levels level (es ++ [e]) = levels level es ++ [(e, level + depth es)] := by
  induction es generalizing level with
  | nil => simp [levels, depth]
  | cons f es ih => simp [levels, ih, depth, Int.add_assoc]

theorem depth_concat (es : List Event) (e : Event) : depth (es ++ [e]) = depth es + e.rise := by
  simp [depth]

theorem rootCount_concat (es : List Event) (e : Event) :
    rootCount (es ++ [e]) = rootCount es + if e.begins && depth es == 0 then 1 else 0 := by
  simp [rootCount, levels_concat, List.countP_append, List.countP_cons]

/-! ### Texts next to each other -/

/-- Whether an event is a text as trees have them. -/
def Event.isText : Event → Bool
  | .text _ => true
  | _ => false

/-- Whether no two texts stand next to each other. -/
def Apart (es : List Event) : Prop := es.IsChain fun e f => e.isText = false ∨ f.isText = false

/-- A text goes with what it is joined to. -/
theorem joinEvent_joinTexts_append (e : Event) (es fs : List Event) :
    joinEvent e (joinTexts (es ++ fs)) = joinTexts (joinEvent e es ++ fs) := by
  cases es with
  | nil => cases e <;> rfl
  | cons f es =>
    cases e with
    | text s =>
      cases f with
      | text t =>
        simp only [List.cons_append, joinTexts, joinEvent]
        cases joinTexts (es ++ fs) with
        | nil => rfl
        | cons g gs => cases g <;> simp [String.append_assoc]
      | _ => rfl
    | _ => rfl

theorem joinTexts_append (es fs : List Event) :
    joinTexts (es ++ fs) = joinTexts (joinTexts es ++ fs) := by
  induction es with
  | nil => rfl
  | cons e es ih =>
    rw [List.cons_append, joinTexts, ih, joinTexts]
    exact joinEvent_joinTexts_append e (joinTexts es) fs

theorem Apart.joinEvent {es : List Event} (h : Apart es) (e : Event) : Apart (joinEvent e es) := by
  cases es with
  | nil => cases e <;> exact .singleton _
  | cons f es =>
    by_cases hne : e.isText = false ∨ f.isText = false
    · have hsame : Markup.joinEvent e (f :: es) = e :: f :: es := by
        cases e <;> cases f <;> first | rfl | simp [Event.isText] at hne
      rw [hsame]
      exact List.isChain_cons_cons.mpr ⟨hne, h⟩
    · cases e <;> cases f <;> simp [Event.isText] at hne
      -- the two are one text, which stands before the same events
      cases es with
      | nil => exact .singleton _
      | cons g es =>
        rw [Apart, List.isChain_cons_cons] at h
        exact List.isChain_cons_cons.mpr h

theorem apart_joinTexts (es : List Event) : Apart (joinTexts es) := by
  induction es with
  | nil => exact .nil
  | cons e es ih => exact ih.joinEvent e

/-- Texts that stand apart need no joining. -/
theorem Apart.joinTexts_eq {es : List Event} (h : Apart es) : joinTexts es = es := by
  induction es with
  | nil => rfl
  | cons e es ih =>
    rw [joinTexts, ih h.tail]
    cases es with
    | nil => cases e <;> rfl
    | cons f es =>
      have hne := (List.isChain_cons_cons.mp h).1
      cases e <;> cases f <;> first | rfl | simp [Event.isText] at hne

theorem Apart.append {es fs : List Event} (h : Apart es) (hfs : Apart fs)
    (hne : ∀ f ∈ fs.head?, f.isText = false) : Apart (es ++ fs) :=
  List.isChain_append.mpr ⟨h, hfs, fun _ _ f hf => .inr (hne f hf)⟩

/-- A text joins the text before it. -/
theorem Apart.joinTexts_text {es : List Event} {t : String} (h : Apart (es ++ [.text t]))
    (s : String) : joinTexts (es ++ [.text t, .text s]) = es ++ [.text (t ++ s)] := by
  have hone : joinTexts (es ++ [.text t, .text s]) = joinTexts (es ++ [.text (t ++ s)]) := by
    clear h
    induction es with
    | nil => rfl
    | cons e es ih => rw [List.cons_append, joinTexts, ih, List.cons_append, joinTexts]
  have hapart : Apart (es ++ [.text (t ++ s)]) := by
    obtain ⟨hes, _, hlast⟩ := List.isChain_append.mp h
    refine List.isChain_append.mpr ⟨hes, .singleton _, fun e he f hf => ?_⟩
    have hbefore := hlast e he (.text t) rfl
    rw [← Option.mem_some_iff.mp hf]
    exact hbefore
  rw [hone, hapart.joinTexts_eq]

/-! ### Trees in document order -/

namespace Element

/-- Nodes whose events have no texts next to each other have none either. -/
theorem isChain_of_apart {ns : List Node} (h : Apart (eventsAmong ns)) :
    ns.IsChain fun n m => n.element?.isSome ∨ m.element?.isSome := by
  induction ns with
  | nil => exact .nil
  | cons n ns ih =>
    have htail : Apart (eventsAmong ns) := by
      cases n with
      | text s => exact h.tail
      | element e => exact (List.isChain_append.mp h).2.1
    cases ns with
    | nil => exact .singleton _
    | cons m ns =>
      refine List.isChain_cons_cons.mpr ⟨?_, ih htail⟩
      cases n with
      | element e => exact .inl rfl
      | text s =>
        cases m with
        | element e => exact .inr rfl
        | text t =>
          have hne := (List.isChain_cons_cons.mp h).1
          simp [Event.isText] at hne

mutual

theorem textsApart_of_apart : ∀ e : Element, Apart e.events → e.TextsApart
  | ⟨name, attributes, children⟩, h => by
    rw [events] at h
    have hchildren : Apart (eventsAmong children) := (List.isChain_append.mp h.tail).1
    intro d hd
    rw [subtrees, List.mem_cons] at hd
    rcases hd with rfl | hd
    · exact isChain_of_apart hchildren
    · exact textsApart_among children hchildren d hd

theorem textsApart_among : ∀ ns : List Node, Apart (eventsAmong ns) → ∀ d ∈ subtreesAmong ns,
    d.children.IsChain fun n m => n.element?.isSome ∨ m.element?.isSome
  | [], _, d, hd => by
    rw [subtreesAmong] at hd
    cases hd
  | .text s :: ns, h, d, hd => textsApart_among ns h.tail d hd
  | .element e :: ns, h, d, hd => by
    obtain ⟨he, hns, -⟩ := List.isChain_append.mp h
    rw [subtreesAmong, List.mem_append] at hd
    rcases hd with hd | hd
    · exact textsApart_of_apart e he d hd
    · exact textsApart_among ns hns d hd

end

end Element

end Transclude.Markup
