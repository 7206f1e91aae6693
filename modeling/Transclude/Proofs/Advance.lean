/-
Written texts and tags in the scanner and the builder of markup.

* `Advances` — some characters lead from one stage of scanner and builder to another;
* `steps_lt` — a `<` ends a text, which becomes the last node of the innermost open element;
* `advances_startTag`, `advances_endTag` — written tags open and close elements.

Design notes: a `Stage` is what the scanner and the builder have come to, without byte offsets,
which only errors show; steps are stated for all offsets.  What is read of a construct is kept with
its last character first, as the scanner keeps it.
-/
import Transclude.Markup.Tree
import Transclude.Proofs.Escape

namespace Transclude.Markup

/-! ### Scanner and builder together -/

/-- What the scanner and the builder have come to. -/
structure Stage where
  reading : Reading
  /-- The names of the open elements, innermost first. -/
  opened : List (List Char)
  builder : Builder

/-- One character leads from a stage to another, wherever it stands. -/
def Stage.Steps (g : Stage) (c : Char) (g' : Stage) : Prop :=
  ∀ start position, ∃ es start' position',
    (⟨start, position, g.reading, g.opened⟩ : Scanner).step c =
      .ok (es, ⟨start', position', g'.reading, g'.opened⟩) ∧
    g.builder.run es = .ok g'.builder

/-- Some characters lead from a stage to another. -/
inductive Advances : Stage → List Char → Stage → Prop
  | nil (g : Stage) : Advances g [] g
  | cons {g h g' : Stage} {c : Char} {cs : List Char} (hc : g.Steps c h) (hcs : Advances h cs g') :
    Advances g (c :: cs) g'

theorem Advances.append {g h g' : Stage} {cs ds : List Char} (hc : Advances g cs h)
    (hd : Advances h ds g') : Advances g (cs ++ ds) g' := by
  induction hc with
  | nil g => exact hd
  | cons hc _ ih => exact .cons hc (ih hd)

theorem Advances.single {g g' : Stage} {c : Char} (h : g.Steps c g') : Advances g [c] g' :=
  .cons h (.nil g')

theorem Builder.run_append {b b' : Builder} {es : List Located} (h : b.run es = .ok b')
    (fs : List Located) : b.run (es ++ fs) = b'.run fs := by
  induction es generalizing b with
  | nil => cases h; rfl
  | cons e es ih =>
    rw [Builder.run] at h
    rw [List.cons_append, Builder.run]
    cases hs : b.step e with
    | error e => rw [hs] at h; cases h
    | ok b₁ => rw [hs] at h; exact ih h

/-- The events of characters that advance a stage are taken by its builder. -/
theorem Advances.run {g g' : Stage} {cs : List Char} (h : Advances g cs g') (start position : Nat) :
    ∃ es start' position', g.builder.run es = .ok g'.builder ∧ ∀ rest,
      (⟨start, position, g.reading, g.opened⟩ : Scanner).run (cs ++ rest) =
        let later := (⟨start', position', g'.reading, g'.opened⟩ : Scanner).run rest
        (es ++ later.1, later.2) := by
  induction h generalizing start position with
  | nil g => exact ⟨[], start, position, rfl, fun rest => rfl⟩
  | cons hc _ ih =>
    obtain ⟨es, start₁, position₁, hs, hb⟩ := hc start position
    obtain ⟨fs, start₂, position₂, hb', hrun⟩ := ih start₁ position₁
    refine ⟨es ++ fs, start₂, position₂, ?_, ?_⟩
    · rw [Builder.run_append hb, hb']
    · intro rest
      rw [List.cons_append, Scanner.run, hs]
      simp only [hrun, List.append_assoc]

/-! ### Texts -/

/-- Characters that are only kept, in the order of reading. -/
theorem advances_kept {r : List Char → Reading} {os : List (List Char)} {b : Builder}
    {cs : List Char} (h : ∀ c ∈ cs, ∀ read, Stage.Steps ⟨r read, os, b⟩ c ⟨r (c :: read), os, b⟩)
    (read : List Char) : Advances ⟨r read, os, b⟩ cs ⟨r (cs.reverse ++ read), os, b⟩ := by
  induction cs generalizing read with
  | nil => exact .nil _
  | cons c cs ih =>
    rw [List.reverse_cons, List.append_assoc, List.singleton_append]
    exact .cons (h c List.mem_cons_self read)
      (ih (fun d hd => h d (List.mem_cons_of_mem c hd)) (c :: read))

theorem advances_text (s : String) (os : List (List Char)) (b : Builder) (read : List Char) :
    Advances ⟨.text read, os, b⟩ (Output.escapeText s)
      ⟨.text ((Output.escapeText s).reverse ++ read), os, b⟩ := by
  refine advances_kept ?_ read
  intro c hc read start position
  have hlt : c ≠ '<' := fun he => lt_not_mem_escapeText s (he ▸ hc)
  refine ⟨[], start, position + c.utf8Size, ?_, rfl⟩
  simp only [Scanner.step, if_neg hlt, Scanner.more]

/-- A text in front of some nodes; it joins a text at their start, and an empty text is none. -/
def joinText (s : String) : List Node → List Node
  | .text t :: ns => .text (s ++ t) :: ns
  | ns => if s = "" then ns else .text s :: ns

theorem joinText_empty (ns : List Node) : joinText "" ns = ns := by
  cases ns with
  | nil => rfl
  | cons n ns =>
    cases n with
    | text t => simp [joinText]
    | element e => rfl

theorem joinText_append (s t : String) (ns : List Node) :
    joinText (s ++ t) ns = joinText s (joinText t ns) := by
  by_cases ht : t = ""
  · rw [ht, joinText_empty, String.append_empty]
  have hst : s ++ t ≠ "" := fun h => ht (String.append_eq_empty_iff.mp h).2
  cases ns with
  | nil => simp [joinText, ht, hst]
  | cons n ns =>
    cases n with
    | text u => simp [joinText, String.append_assoc]
    | element e => simp [joinText, ht, hst]

/-- A text in front of an element stands alone. -/
theorem joinText_element (s : String) (e : Element) (ns : List Node) :
    joinText s (.element e :: ns) = joinText s [] ++ .element e :: ns := by
  by_cases hs : s = ""
  · simp [joinText, hs]
  · simp [joinText, hs]

/-- Whether the last of some nodes is a text. -/
def EndsInText (ns : List Node) : Prop := ∃ ms s, ns = ms ++ [.text s]

theorem not_endsInText_element (ns : List Node) (e : Element) :
    ¬EndsInText (ns ++ [.element e]) := by
  rintro ⟨ms, s, h⟩
  have hlast : [Node.element e] = [Node.text s] := (List.append_inj' h rfl).2
  cases hlast

theorem addText_eq {s : String} {ns : List Node} (h : ¬EndsInText ns) :
    addText s ns = ns ++ [.text s] := by
  induction ns with
  | nil => rfl
  | cons n ns ih =>
    cases ns with
    | nil =>
      cases n with
      | text t => exact absurd ⟨[], t, rfl⟩ h
      | element e => rfl
    | cons m ns =>
      have hns : ¬EndsInText (m :: ns) := fun ⟨ms, t, ht⟩ => h ⟨n :: ms, t, by rw [ht]; rfl⟩
      rw [addText, ih hns]
      rfl

theorem escapeText_ne_nil {s : String} (h : s ≠ "") : Output.escapeText s ≠ [] := by
  intro hnil
  have hunescape := unescape_flatMap undone_escapeTextChar s.toList
  rw [show s.toList.flatMap Output.escapeTextChar = [] from hnil] at hunescape
  exact h (String.toList_eq_nil_iff.mp (Except.ok.inj hunescape).symm)

/-- A `<` ends the pending text, which becomes the last node of the innermost open element. -/
theorem steps_lt (name : String) (attrs : List (String × String)) {children : List Node}
    (h : ¬EndsInText children) (p : String) (os : List (List Char)) (outer : List Element)
    (root : Option Element) :
    Stage.Steps ⟨.text (Output.escapeText p).reverse, os, ⟨⟨name, attrs, children⟩ :: outer, root⟩⟩
      '<' ⟨.markup, os, ⟨⟨name, attrs, children ++ joinText p []⟩ :: outer, root⟩⟩ := by
  intro start position
  by_cases hp : p = ""
  · -- the scanner makes no event of an empty text
    subst hp
    refine ⟨[], position, position + 1, rfl, ?_⟩
    simp [Builder.run, joinText]
  · have hread : (Output.escapeText p).reverse.isEmpty = false := by
      simpa using escapeText_ne_nil hp
    have hunescape : unescape (Output.escapeText p) = .ok p.toList :=
      unescape_flatMap undone_escapeTextChar p.toList
    refine ⟨[⟨.text p, start⟩], position, position + 1, ?_, ?_⟩
    · simp only [Scanner.step, Scanner.endText, hread, List.reverse_reverse, hunescape,
        String.ofList_toList, if_true, Bool.false_eq_true, if_false]
    · simp [Builder.run, Builder.step, Builder.put, addText_eq h, joinText, hp]

/-! ### Tags -/

/-- A character that begins no other markup than a tag. -/
theorem steps_markup {c : Char} (hbang : c ≠ '!') (hquestion : c ≠ '?') (hgt : c ≠ '>')
    (hquot : c ≠ '"') (hapos : c ≠ '\'') (os : List (List Char)) (b : Builder) :
    Stage.Steps ⟨.markup, os, b⟩ c ⟨.tag [c] none, os, b⟩ := by
  intro start position
  refine ⟨[], start, position + c.utf8Size, ?_, rfl⟩
  simp [Scanner.step, Scanner.stepTag, Scanner.more, hbang, hquestion, hgt, hquot, hapos]

/-- Characters of a tag outside of quotes. -/
theorem advances_tag {cs : List Char} (h : ∀ c ∈ cs, c ≠ '>' ∧ c ≠ '"' ∧ c ≠ '\'')
    (os : List (List Char)) (b : Builder) (read : List Char) :
    Advances ⟨.tag read none, os, b⟩ cs ⟨.tag (cs.reverse ++ read) none, os, b⟩ := by
  refine advances_kept (r := fun read => .tag read none) ?_ read
  intro c hc read start position
  obtain ⟨hgt, hquot, hapos⟩ := h c hc
  refine ⟨[], start, position + c.utf8Size, ?_, rfl⟩
  simp [Scanner.step, Scanner.stepTag, Scanner.more, hgt, hquot, hapos]

/-- Characters of a tag in double quotes. -/
theorem advances_value {cs : List Char} (h : '"' ∉ cs) (os : List (List Char)) (b : Builder)
    (read : List Char) :
    Advances ⟨.tag read (some '"'), os, b⟩ cs ⟨.tag (cs.reverse ++ read) (some '"'), os, b⟩ := by
  refine advances_kept (r := fun read => .tag read (some '"')) ?_ read
  intro c hc read start position
  have hne : c ≠ '"' := fun he => h (he ▸ hc)
  refine ⟨[], start, position + c.utf8Size, ?_, rfl⟩
  simp [Scanner.step, Scanner.stepTag, Scanner.more, hne]

theorem steps_openQuote (os : List (List Char)) (b : Builder) (read : List Char) :
    Stage.Steps ⟨.tag read none, os, b⟩ '"' ⟨.tag ('"' :: read) (some '"'), os, b⟩ := by
  intro start position
  exact ⟨[], start, position + 1, rfl, rfl⟩

theorem steps_closeQuote (os : List (List Char)) (b : Builder) (read : List Char) :
    Stage.Steps ⟨.tag read (some '"'), os, b⟩ '"' ⟨.tag ('"' :: read) none, os, b⟩ := by
  intro start position
  exact ⟨[], start, position + 1, rfl, rfl⟩

theorem ne_of_isName {cs : List Char} (h : isName cs = true) :
    ∀ c ∈ cs, c ≠ '>' ∧ c ≠ '"' ∧ c ≠ '\'' := by
  intro c hc
  have hchar := isNameChar_of_isName h c hc
  exact ⟨ne_of_isNameChar hchar rfl, ne_of_isNameChar hchar rfl, ne_of_isNameChar hchar rfl⟩

theorem advances_attribute {a : String × String} (h : isName a.1.toList = true)
    (os : List (List Char)) (b : Builder) (read : List Char) :
    Advances ⟨.tag read none, os, b⟩ (Output.attributeHtml a)
      ⟨.tag ((Output.attributeHtml a).reverse ++ read) none, os, b⟩ := by
  obtain ⟨key, value⟩ := a
  have hkey : ∀ c ∈ ' ' :: (key.toList ++ ['=']), c ≠ '>' ∧ c ≠ '"' ∧ c ≠ '\'' := by
    intro c hc
    rcases List.mem_cons.mp hc with rfl | hc
    · decide
    rcases List.mem_append.mp hc with hc | hc
    · exact ne_of_isName h c hc
    · rw [List.mem_singleton.mp hc]
      decide
  -- the key up to the equals sign, the opening quotation mark, the value, and the closing one
  have hopened := (advances_tag hkey os b read).append (.single (steps_openQuote os b _))
  have hvalue := hopened.append (advances_value (quote_not_mem_escapeValue value.toList) os b _)
  have hclosed := hvalue.append (.single (steps_closeQuote os b _))
  simpa [Output.attributeHtml] using hclosed

theorem advances_attributes {attrs : List (String × String)}
    (h : ∀ a ∈ attrs, isName a.1.toList = true) (os : List (List Char)) (b : Builder)
    (read : List Char) :
    Advances ⟨.tag read none, os, b⟩ (attrs.flatMap Output.attributeHtml)
      ⟨.tag ((attrs.flatMap Output.attributeHtml).reverse ++ read) none, os, b⟩ := by
  induction attrs generalizing read with
  | nil => exact .nil _
  | cons a attrs ih =>
    rw [List.flatMap_cons, List.reverse_append, List.append_assoc]
    exact (advances_attribute (h a List.mem_cons_self) os b read).append
      (ih (fun c hc => h c (List.mem_cons_of_mem a hc)) _)

/-- The last character of a written start tag belongs to a name or is the quotation mark of a value,
so that the tag is not taken for an empty element. -/
theorem exists_last_tagHtml {tag : String} (ht : isName tag.toList = true)
    (attrs : List (String × String)) :
    ∃ c cs, (tagHtml tag attrs).reverse = c :: cs ∧ c ≠ '/' := by
  rcases List.eq_nil_or_concat attrs with rfl | ⟨init, a, rfl⟩
  · cases hrev : tag.toList.reverse with
    | nil => rw [List.reverse_eq_nil_iff.mp hrev] at ht; cases ht
    | cons c cs =>
      have hmem : c ∈ tag.toList := List.mem_reverse.mp (hrev ▸ List.mem_cons_self)
      refine ⟨c, cs, ?_, ne_of_isNameChar (isNameChar_of_isName ht c hmem) rfl⟩
      rw [tagHtml, List.flatMap_nil, List.append_nil, hrev]
  · -- the last attribute ends with the quotation mark of its value
    obtain ⟨front, hquote⟩ : ∃ front, Output.attributeHtml a = front ++ ['"'] :=
      ⟨' ' :: (a.1.toList ++ '=' :: '"' :: a.2.toList.flatMap Output.escapeValueChar),
        by simp [Output.attributeHtml]⟩
    refine ⟨'"', (tag.toList ++ init.flatMap Output.attributeHtml ++ front).reverse, ?_, by decide⟩
    rw [tagHtml, List.concat_eq_append, List.flatMap_append, List.flatMap_singleton, hquote]
    simp

theorem tag_opening {s : Scanner} {read name : List Char} {attrs : List (String × String)}
    {c d : Char} {cs ds : List Char} (hfirst : read.reverse = c :: cs) (hc : c ≠ '/')
    (hlast : read = d :: ds) (hd : d ≠ '/') (h : s.startTag read.reverse = .ok (name, attrs)) :
    s.tag read = .ok (.opening (String.ofList name) attrs, name :: s.opened) := by
  unfold Scanner.tag
  split
  · rename_i content hslash
    exact absurd (List.cons.inj (hfirst.symm.trans hslash)).1 hc
  · exact absurd (List.cons.inj hlast).1.symm hd
  · rw [h]

/-- The end of a start tag opens an element. -/
theorem steps_startTag {tag : String} (ht : isName tag.toList = true)
    {attrs : List (String × String)} (hn : ∀ a ∈ attrs, isName a.1.toList = true)
    (hd : (attrs.map Prod.fst).Nodup) (os : List (List Char)) (b : Builder) :
    Stage.Steps ⟨.tag (tagHtml tag attrs).reverse none, os, b⟩ '>'
      ⟨.text [], tag.toList :: os, { b with opened := ⟨tag, attrs, []⟩ :: b.opened }⟩ := by
  intro start position
  obtain ⟨d, ds, hlast, hne⟩ := exists_last_tagHtml ht attrs
  obtain ⟨c, cs, hfirst, hc⟩ : ∃ c cs, (tagHtml tag attrs).reverse.reverse = c :: cs ∧ c ≠ '/' := by
    rw [List.reverse_reverse, tagHtml]
    cases htag : tag.toList with
    | nil => rw [htag] at ht; cases ht
    | cons c cs =>
      have hmem : c ∈ tag.toList := htag ▸ List.mem_cons_self
      exact ⟨c, _, rfl, ne_of_isNameChar (isNameChar_of_isName ht c hmem) rfl⟩
  have hresult : (⟨start, position, .tag (tagHtml tag attrs).reverse none, os⟩ : Scanner).startTag
      (tagHtml tag attrs).reverse.reverse = .ok (tag.toList, attrs) := by
    rw [List.reverse_reverse]
    exact startTag_html ht hn hd _
  refine ⟨[⟨.opening tag attrs, start⟩], position + '>'.utf8Size, position + '>'.utf8Size, ?_, rfl⟩
  simp only [Scanner.step, Scanner.stepTag, if_true, Scanner.ended, Scanner.between,
    tag_opening hfirst hc hlast hne hresult, String.ofList_toList]

/-- A start tag opens an element. -/
theorem advances_startTag {tag : String} (ht : isName tag.toList = true)
    {attrs : List (String × String)} (hn : ∀ a ∈ attrs, isName a.1.toList = true)
    (hd : (attrs.map Prod.fst).Nodup) (os : List (List Char)) (b : Builder) :
    Advances ⟨.markup, os, b⟩ (tagHtml tag attrs ++ ['>'])
      ⟨.text [], tag.toList :: os, { b with opened := ⟨tag, attrs, []⟩ :: b.opened }⟩ := by
  have hname : Advances ⟨.markup, os, b⟩ tag.toList ⟨.tag tag.toList.reverse none, os, b⟩ := by
    cases htag : tag.toList with
    | nil => rw [htag] at ht; cases ht
    | cons c cs =>
      rw [htag] at ht
      have hne := ne_of_isName ht
      have hc := isNameChar_of_isName ht c List.mem_cons_self
      obtain ⟨hgt, hquot, hapos⟩ := hne c List.mem_cons_self
      rw [List.reverse_cons]
      exact .cons (steps_markup (ne_of_isNameChar hc rfl) (ne_of_isNameChar hc rfl) hgt hquot hapos
        os b) (advances_tag (fun d hd => hne d (List.mem_cons_of_mem c hd)) os b [c])
  have hall := hname.append (advances_attributes hn os b _)
  rw [← List.reverse_append] at hall
  exact hall.append (.single (steps_startTag ht hn hd os b))

theorem endName_eq {cs : List Char} (h : isName cs = true) : Scanner.endName cs = cs := by
  have hspace : ∀ c ∈ cs, isSpace c = false := fun c hc =>
    not_isSpace_of_isNameChar (isNameChar_of_isName h c hc)
  rw [Scanner.endName, ite_eq_left_iff]
  intro _
  cases hrev : cs.reverse with
  | nil => rw [List.reverse_eq_nil_iff.mp hrev]; rfl
  | cons c ds =>
    have hc : isSpace c = false := hspace c (List.mem_reverse.mp (hrev ▸ List.mem_cons_self))
    rw [List.dropWhile_cons_of_neg (by simp [hc]), ← hrev, List.reverse_reverse]

/-- An end tag closes the innermost open element. -/
theorem advances_endTag {tag : String} (ht : isName tag.toList = true) (os : List (List Char))
    {top : Element} {outer : List Element} {root : Option Element} {b : Builder}
    (hb : ∀ position, (⟨outer, root⟩ : Builder).attach top position = .ok b) :
    Advances ⟨.markup, tag.toList :: os, ⟨top :: outer, root⟩⟩ ('/' :: (tag.toList ++ ['>']))
      ⟨.text [], os, b⟩ := by
  have hslash : Stage.Steps ⟨.markup, tag.toList :: os, ⟨top :: outer, root⟩⟩ '/'
      ⟨.tag ['/'] none, tag.toList :: os, ⟨top :: outer, root⟩⟩ :=
    steps_markup (by decide) (by decide) (by decide) (by decide) (by decide) _ _
  refine .cons hslash ((advances_tag (ne_of_isName ht) _ _ ['/']).append (.single ?_))
  intro start position
  have hname := endName_eq ht
  refine ⟨[⟨.closing, start⟩], position + '>'.utf8Size, position + '>'.utf8Size, ?_, ?_⟩
  · have hread : (tag.toList.reverse ++ ['/']).reverse = '/' :: tag.toList := by simp
    simp only [Scanner.step, Scanner.stepTag, if_true, Scanner.ended, Scanner.between, Scanner.tag,
      hread, Scanner.endTag, hname]
  · simp only [Builder.run, Builder.step, hb]

end Transclude.Markup
