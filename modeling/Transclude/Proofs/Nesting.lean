/-
From events to a tree, and nothing lost or invented.

The events of a document make a tree when every end tag closes an open element, all elements are
closed at the end, one element stands at the top level, and no text stands there but blanks.  In
document order the tree is then what the events say.

* `Builder.events` — what has been read into unfinished elements, as events again;
* `Builder.takes_of_step`, `Builder.exists_step` — what an event does, and that it is taken where it
  is allowed;
* `reads_of_run`, `exists_run` — which events are taken one after the other;
* `ofEvents_keeps_content` — events make a tree exactly when they are well-formed, and the tree is
  their content.

Design notes: a second top-level element may open, and is refused when it closes, so on the way
there may be one root too many; `Builder.roots` counts the finished root and the one that is open.
What has been read is compared with the content as an equation between lists of events, in which the
last text of the innermost element may still grow.
-/
import Transclude.Proofs.Advance
import Transclude.Proofs.Outline

namespace Transclude.Markup

/-! ### What has been read -/

/-- The unfinished elements as events, outermost first. -/
def eventsOfOpened : List Element → List Event
  | [] => []
  | e :: outer =>
    eventsOfOpened outer ++ .opening e.name e.attributes :: Element.eventsAmong e.children

/-- All that has been read, as events. -/
def Builder.events (b : Builder) : List Event :=
  (b.root.map Element.events).getD [] ++ eventsOfOpened b.opened

theorem addText_text (s t : String) (ns : List Node) :
    addText s (ns ++ [.text t]) = ns ++ [.text (t ++ s)] := by
  induction ns with
  | nil => rfl
  | cons n ns ih =>
    cases ns with
    | nil => cases n <;> rfl
    | cons m ns =>
      rw [List.cons_append] at ih
      rw [List.cons_append, List.cons_append, addText, ih]
      rfl

theorem Apart.concat {es : List Event} {e : Event} (h : Apart (es ++ [e]))
    (he : e.isText = false) (f : Event) : Apart (es ++ [e, f]) := by
  obtain ⟨hes, _, hlast⟩ := List.isChain_append.mp h
  refine List.isChain_append.mpr ⟨hes, List.isChain_cons_cons.mpr ⟨.inl he, .singleton _⟩, ?_⟩
  exact fun d hd f hf => hlast d hd f hf

/-- One more text inside an element joins the text at the end of its children, if there is one. -/
theorem joinTexts_addText {before : List Event} {name : String}
    {attributes : List (String × String)} {ns : List Node}
    (h : Apart (before ++ .opening name attributes :: Element.eventsAmong ns)) (s : String) :
    joinTexts (before ++ .opening name attributes :: Element.eventsAmong ns ++ [.text s]) =
      before ++ .opening name attributes :: Element.eventsAmong (addText s ns) := by
  rcases List.eq_nil_or_concat ns with rfl | ⟨ms, n, rfl⟩
  · have hmore := Apart.concat h rfl (.text s)
    simpa [Element.eventsAmong, addText] using hmore.joinTexts_eq
  · rw [List.concat_eq_append, Element.eventsAmong_append] at h ⊢
    cases n with
    | text t =>
      simp only [Element.eventsAmong] at h ⊢
      rw [addText_text, Element.eventsAmong_append]
      have hapart : Apart ((before ++ .opening name attributes :: Element.eventsAmong ms) ++
          [.text t]) := by simpa using h
      simpa [Element.eventsAmong] using hapart.joinTexts_text s
    | element e =>
      obtain ⟨own, attrs, children⟩ := e
      simp only [Element.eventsAmong, Element.events] at h ⊢
      rw [addText_eq (not_endsInText_element _ _)]
      have hapart : Apart ((before ++ .opening name attributes :: (Element.eventsAmong ms ++
          .opening own attrs :: Element.eventsAmong children)) ++ [.closing]) := by simpa using h
      have hmore := hapart.concat rfl (.text s)
      simpa [Element.eventsAmong, Element.events, Element.eventsAmong_append]
        using hmore.joinTexts_eq

namespace Builder

variable {b b' : Builder}

/-- The number of top-level elements that have begun. -/
def roots (b : Builder) : Nat :=
  (if b.root.isSome then 1 else 0) + if b.opened.isEmpty then 0 else 1

/-- A finished element goes into the element around it, or is the first root. -/
theorem attach_eq_ok {e : Element} {position : Nat} (h : b.attach e position = .ok b') :
    b'.events = b.events ++ e.events ∧ b'.opened.length = b.opened.length ∧
      b'.roots = b.roots + if b.opened.isEmpty then 1 else 0 := by
  rw [attach] at h
  split at h
  · rename_i parent outer hopened
    cases h
    simp [events, roots, hopened, eventsOfOpened, Element.eventsAmong_append, Element.eventsAmong]
  · rename_i hopened
    split at h
    · rename_i hroot
      cases h
      simp [events, roots, hopened, hroot, eventsOfOpened]
    · cases h

theorem exists_attach {e : Element} (position : Nat)
    (h : b.roots + (if b.opened.isEmpty then 1 else 0) ≤ 1) :
    ∃ b', b.attach e position = .ok b' := by
  rw [attach]
  split
  · exact ⟨_, rfl⟩
  · rename_i hopened
    split
    · exact ⟨_, rfl⟩
    · rename_i hroot
      simp [roots, hopened, hroot] at h

/-- What one event does to what has been read. -/
structure Takes (b : Builder) (e : Event) (b' : Builder) : Prop where
  fits : e.Fits b.opened.length
  level : (b'.opened.length : Int) = b.opened.length + e.rise
  roots : b'.roots = b.roots + if e.begins && (b.opened.length : Int) == 0 then 1 else 0
  events : b'.events = joinTexts (b.events ++ e.adds b.opened.length)

theorem takes_opening (hb : Apart b.events) (name : String)
    (attributes : List (String × String)) :
    b.Takes (.opening name attributes) { b with opened := ⟨name, attributes, []⟩ :: b.opened } where
  fits := ⟨by simp only [Event.rise]; omega, fun _ => rfl⟩
  level := by simp [Event.rise]
  roots := by
    obtain ⟨opened, root⟩ := b
    cases opened <;> simp [Builder.roots, Event.begins]
    omega
  events := by
    have hapart : Apart (b.events ++ [.opening name attributes]) :=
      hb.append (.singleton _) (by simp [Event.isText])
    simpa [Event.adds, Event.text?, Event.spelledOut, Builder.events, eventsOfOpened,
      Element.eventsAmong] using hapart.joinTexts_eq.symm

theorem takes_empty {name : String} {attributes : List (String × String)} {position : Nat}
    (hb : Apart b.events) (h : b.attach ⟨name, attributes, []⟩ position = .ok b') :
    b.Takes (.empty name attributes) b' := by
  obtain ⟨hevents, hlength, hroots⟩ := attach_eq_ok h
  constructor
  · exact ⟨by simp only [Event.rise]; omega, fun _ => rfl⟩
  · simp [Event.rise, hlength]
  · simp [hroots, Event.begins]
  · have hapart : Apart (b.events ++ [.opening name attributes, .closing]) :=
      hb.append (by simp [Apart, Event.isText]) (by simp [Event.isText])
    rw [hevents, Event.adds_of_text?_eq_none rfl]
    exact hapart.joinTexts_eq.symm

theorem takes_closing {top : Element} {outer : List Element} {position : Nat}
    (hb : Apart b.events) (hopened : b.opened = top :: outer)
    (h : attach { b with opened := outer } top position = .ok b') : b.Takes .closing b' := by
  obtain ⟨hevents, hlength, hroots⟩ := attach_eq_ok h
  constructor
  · refine ⟨?_, fun _ => rfl⟩
    simp only [Event.rise, hopened, List.length_cons]
    omega
  · simp only [Event.rise, hopened, hlength, List.length_cons]
    omega
  · rw [hroots]
    cases outer <;> simp [Builder.roots, hopened, Event.begins]
  · have hapart : Apart (b.events ++ [.closing]) :=
      hb.append (.singleton _) (by simp [Event.isText])
    have hall : b'.events = b.events ++ [.closing] := by
      obtain ⟨name, attributes, children⟩ := top
      rw [hevents]
      simp [Builder.events, hopened, eventsOfOpened, Element.events]
    rw [hall, Event.adds_of_text?_eq_none rfl]
    exact hapart.joinTexts_eq.symm

theorem takes_text_inside {e : Event} {s : String} (he : e.text? = some s) {name : String}
    {attributes : List (String × String)} {children : List Node} {outer : List Element}
    {root : Option Element}
    (hb : Apart (Builder.events ⟨⟨name, attributes, children⟩ :: outer, root⟩)) :
    Takes ⟨⟨name, attributes, children⟩ :: outer, root⟩ e
      ⟨⟨name, attributes, addText s children⟩ :: outer, root⟩ := by
  obtain ⟨hrise, hbegins, hspelled⟩ := Event.of_text? he
  have hevents : ∀ ns, Builder.events ⟨⟨name, attributes, ns⟩ :: outer, root⟩ =
      (root.map Element.events).getD [] ++ eventsOfOpened outer ++
        .opening name attributes :: Element.eventsAmong ns := by
    intro ns
    simp [Builder.events, eventsOfOpened]
  have hlevel : ((⟨name, attributes, children⟩ :: outer : List Element).length : Int) ≠ 0 := by
    rw [List.length_cons]
    omega
  rw [hevents] at hb
  constructor
  · exact ⟨by rw [hrise]; omega, fun hzero => absurd hzero hlevel⟩
  · simp [hrise]
  · simp [hbegins, Builder.roots]
  · rw [Event.adds, if_neg (fun hzero => hlevel hzero.1), hspelled, hevents, hevents]
    exact (joinTexts_addText hb s).symm

theorem takes_text_outside {e : Event} {s : String} (he : e.text? = some s)
    (hblank : Text.allBlank s.toList = true) (hopened : b.opened = []) (hb : Apart b.events) :
    b.Takes e b := by
  obtain ⟨hrise, hbegins, -⟩ := Event.of_text? he
  have hadds : e.adds (b.opened.length : Int) = [] := by simp [Event.adds, hopened, he]
  constructor
  · refine ⟨by rw [hrise]; omega, fun _ => ?_⟩
    rw [he]
    exact hblank
  · simp [hrise]
  · simp [hbegins]
  · rw [hadds, List.append_nil, hb.joinTexts_eq]

/-- A text goes into the innermost element, or it is blank. -/
theorem takes_text {e : Event} {s : String} {position : Nat} (he : e.text? = some s)
    (hb : Apart b.events) (h : b.put s position = .ok b') : b.Takes e b' := by
  obtain ⟨opened, root⟩ := b
  rw [put] at h
  split at h
  · rename_i parent outer hopened
    obtain ⟨name, attributes, children⟩ := parent
    obtain rfl : opened = ⟨name, attributes, children⟩ :: outer := hopened
    cases h
    exact takes_text_inside he hb
  · rename_i hopened
    split at h
    · rename_i hblank
      cases h
      exact takes_text_outside he hblank hopened hb
    · cases h

theorem takes_of_step {e : Located} (hb : Apart b.events) (h : b.step e = .ok b') :
    b.Takes e.event b' := by
  obtain ⟨event, position⟩ := e
  cases event with
  | opening name attributes =>
    cases h
    exact takes_opening hb name attributes
  | empty name attributes => exact takes_empty hb h
  | closing =>
    cases hopened : b.opened with
    | nil =>
      simp only [step, hopened] at h
      cases h
    | cons top outer =>
      simp only [step, hopened] at h
      exact takes_closing hb hopened h
  | text s => exact takes_text rfl hb h
  | cdata s => exact takes_text rfl hb h
  | other =>
    cases h
    constructor
    · exact ⟨by simp only [Event.rise]; omega, fun _ => rfl⟩
    · simp [Event.rise]
    · simp [Event.begins]
    · simp [Event.adds, Event.text?, Event.spelledOut, hb.joinTexts_eq]

/-- An event that is allowed is taken, as long as there is one root at most. -/
theorem exists_step (e : Located) (hfits : e.event.Fits b.opened.length)
    (hroots : b.roots +
      (if e.event.begins && (b.opened.length : Int) == 0 then 1 else 0) ≤ 1) :
    ∃ b', b.step e = .ok b' := by
  obtain ⟨event, position⟩ := e
  have hput : ∀ s, event.text? = some s → ∃ b', b.put s position = .ok b' := by
    intro s htext
    rw [put]
    split
    · exact ⟨_, rfl⟩
    · rename_i hopened
      have hblank := hfits.2 (by simp [hopened])
      rw [show (Located.event ⟨event, position⟩).text? = some s from htext] at hblank
      exact ⟨b, if_pos hblank⟩
  cases event with
  | opening name attributes => exact ⟨_, rfl⟩
  | empty name attributes =>
    refine exists_attach position ?_
    simpa [Event.begins] using hroots
  | closing =>
    cases hopened : b.opened with
    | nil =>
      have hlevel := hfits.1
      simp [Event.rise, hopened] at hlevel
    | cons top outer =>
      rw [step, hopened]
      refine exists_attach position ?_
      cases outer <;> simpa [Builder.roots, hopened, Event.begins] using hroots
  | text s => exact hput s rfl
  | cdata s => exact hput s rfl
  | other => exact ⟨b, rfl⟩

end Builder

/-! ### Runs -/

/-- Whether the reader stands where it is after some events. -/
structure Reads (b : Builder) (es : List Event) : Prop where
  level : (b.opened.length : Int) = depth es
  /-- One root is finished at most; a second one may be open. -/
  roots : b.roots = rootCount es
  events : b.events = content es

theorem reads_start : Reads .start [] := ⟨rfl, rfl, rfl⟩

theorem content_concat (es : List Event) (e : Event) :
    content (es ++ [e]) = joinTexts (content es ++ e.adds (depth es)) := by
  rw [content, levels_concat, List.flatMap_append, joinTexts_append, content]
  simp

theorem Reads.takes {b b' : Builder} {es : List Event} {e : Event} (h : Reads b es)
    (ht : b.Takes e b') : Reads b' (es ++ [e]) where
  level := by rw [ht.level, h.level, depth_concat]
  roots := by rw [ht.roots, h.roots, h.level, rootCount_concat]
  events := by rw [ht.events, h.events, h.level, content_concat]

theorem Builder.run_concat {b b' : Builder} {es : List Located} {e : Located} :
    b.run (es ++ [e]) = .ok b' ↔ ∃ c, b.run es = .ok c ∧ c.step e = .ok b' := by
  induction es generalizing b with
  | nil =>
    rw [List.nil_append, Builder.run]
    cases hs : b.step e with
    | error f => simp [Builder.run, hs]
    | ok c => simp [Builder.run, hs]
  | cons f es ih =>
    rw [List.cons_append, Builder.run, Builder.run]
    cases hs : b.step f with
    | error f => simp
    | ok c => exact ih

/-- The reader takes events if each is allowed at its level and at most one root begins, and it only
takes allowed ones; then it stands after all of them. -/
theorem reads_of_run {es : List Located} {b : Builder} (h : Builder.start.run es = .ok b) :
    Reads b (es.map Located.event) ∧ ∀ x ∈ levels 0 (es.map Located.event), x.1.Fits x.2 := by
  induction es using List.reverseRecOn generalizing b with
  | nil =>
    cases h
    exact ⟨reads_start, by simp [levels]⟩
  | append_singleton es e ih =>
    obtain ⟨c, hc, hstep⟩ := Builder.run_concat.mp h
    obtain ⟨hreads, hfits⟩ := ih hc
    have htakes := Builder.takes_of_step (hreads.events ▸ apart_joinTexts _) hstep
    rw [List.map_append, List.map_singleton]
    refine ⟨hreads.takes htakes, ?_⟩
    intro x hx
    rw [levels_concat, List.mem_append, List.mem_singleton] at hx
    rcases hx with hx | rfl
    · exact hfits x hx
    · rw [Int.zero_add, ← hreads.level]
      exact htakes.fits

theorem exists_run {es : List Located}
    (hfits : ∀ x ∈ levels 0 (es.map Located.event), x.1.Fits x.2)
    (hroots : rootCount (es.map Located.event) ≤ 1) : ∃ b, Builder.start.run es = .ok b := by
  induction es using List.reverseRecOn with
  | nil => exact ⟨_, rfl⟩
  | append_singleton es e ih =>
    rw [List.map_append, List.map_singleton] at hfits hroots
    rw [levels_concat, Int.zero_add] at hfits
    rw [rootCount_concat] at hroots
    obtain ⟨b, hb⟩ := ih (fun x hx => hfits x (by simp [hx])) (by omega)
    have hreads := (reads_of_run hb).1
    rw [← hreads.roots, ← hreads.level] at hroots
    have hlast := hfits (e.event, depth (es.map Located.event)) (by simp)
    rw [← hreads.level] at hlast
    obtain ⟨b', hb'⟩ := b.exists_step e hlast hroots
    exact ⟨b', Builder.run_concat.mpr ⟨b, hb, hb'⟩⟩

/-! ### Trees -/

theorem ofEvents_eq_ok {length : Nat} {es : List Located} {e : Element} :
    ofEvents length es = .ok e ↔ Builder.start.run es = .ok ⟨[], some e⟩ := by
  rw [ofEvents]
  cases hrun : Builder.start.run es with
  | error f => simp
  | ok b =>
    obtain ⟨opened, root⟩ := b
    cases opened with
    | cons top outer => simp [Builder.finish]
    | nil => cases root <;> simp [Builder.finish]

/-- Events make a tree exactly when they are well-formed. -/
theorem exists_ofEvents_iff {length : Nat} {es : List Located} :
    (∃ e, ofEvents length es = .ok e) ↔ WellFormed (es.map Located.event) := by
  simp only [ofEvents_eq_ok]
  constructor
  · rintro ⟨e, he⟩
    obtain ⟨hreads, hfits⟩ := reads_of_run he
    exact ⟨fun x hx => (hfits x hx).1, hreads.level.symm, hreads.roots.symm,
      fun x hx => (hfits x hx).2⟩
  · intro h
    have hfits : ∀ x ∈ levels 0 (es.map Located.event), x.1.Fits x.2 :=
      fun x hx => ⟨h.nested x hx, h.blank x hx⟩
    obtain ⟨⟨opened, root⟩, hrun⟩ := exists_run hfits h.root.le
    have hreads := (reads_of_run hrun).1
    -- all elements are closed, and so the one root that began is finished
    have hopened : opened = [] := by
      have hlevel := hreads.level
      rw [h.closed] at hlevel
      exact List.length_eq_zero_iff.mp (Int.ofNat_eq_zero.mp hlevel)
    subst hopened
    have hroots := hreads.roots
    rw [h.root] at hroots
    cases root with
    | none => simp [Builder.roots] at hroots
    | some e => exact ⟨e, hrun⟩

/-- A document is parsed to the tree of its events, if there is no fault among them. -/
theorem parse_eq_ok_iff {text : String} {e : Element} :
    parse text = .ok e ↔ ∃ es, events text.toList = (es, none) ∧
      ofEvents (Text.byteLength text.toList) es = .ok e := by
  rw [parse]
  obtain ⟨es, fault⟩ := events text.toList
  simp only [Prod.mk.injEq, ofEvents]
  cases hrun : Builder.start.run es with
  | error f => cases fault <;> simp [hrun]
  | ok b => cases fault <;> simp [hrun]

/-- **The tree holds what the events say.**  Events make a tree if and only if start and end tags
are balanced, exactly one element begins at the top level, and all text outside of it is blank.  In
document order the tree is then these events, with an empty element as its two tags, CDATA as text,
each run of texts inside an element as one, and all else left out; so no two texts of it stand next
to each other.  A document is parsed to the tree of its events. -/
theorem ofEvents_keeps_content (length : Nat) (es : List Located) :
    ((∃ e, ofEvents length es = .ok e) ↔ WellFormed (es.map Located.event)) ∧
    (∀ e, ofEvents length es = .ok e →
      e.events = content (es.map Located.event) ∧ e.TextsApart) ∧
    ∀ text e, parse text = .ok e ↔ ∃ es, events text.toList = (es, none) ∧
      ofEvents (Text.byteLength text.toList) es = .ok e := by
  refine ⟨exists_ofEvents_iff, fun e he => ?_, fun text e => parse_eq_ok_iff⟩
  have hreads := (reads_of_run (ofEvents_eq_ok.mp he)).1
  have hevents : e.events = content (es.map Located.event) := by
    rw [← hreads.events]
    simp [Builder.events, eventsOfOpened]
  refine ⟨hevents, e.textsApart_of_apart ?_⟩
  rw [hevents]
  exact apart_joinTexts _

/-- Blanks around the root, and in it a text that goes on in CDATA and after a comment. -/
theorem ofEvents_keeps_content_of_split_text :
    let es : List Located := [⟨.text "\n", 0⟩, ⟨.opening "p" [("id", "1")], 1⟩, ⟨.text "a", 11⟩,
      ⟨.cdata "<b>", 12⟩, ⟨.other, 27⟩, ⟨.text "c", 35⟩, ⟨.empty "br" [], 36⟩, ⟨.closing, 41⟩,
      ⟨.other, 45⟩]
    WellFormed (es.map Located.event) ∧ ∃ e, ofEvents 53 es = .ok e ∧ e.TextsApart ∧
      e.events = [.opening "p" [("id", "1")], .text "a<b>c", .opening "br" [], .closing,
        .closing] := by
  intro es
  have hwell : WellFormed (es.map Located.event) :=
    ⟨by decide, by decide, by decide, by decide⟩
  obtain ⟨e, he⟩ := (ofEvents_keeps_content 53 es).1.mpr hwell
  obtain ⟨hevents, hapart⟩ := (ofEvents_keeps_content 53 es).2.1 e he
  exact ⟨hwell, e, he, hapart, hevents⟩

end Transclude.Markup
