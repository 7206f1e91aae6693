/-
Line breaks in indented pages.

A page is a sequence of tags and texts.  Compact and indented HTML write the same sequence, and
differ in what stands in front of its parts.

* `Element.parts` — the tags and texts of a tree, each with the address of its element;
* `Element.isSpread` — whether the children of an element are written on lines of their own;
* `Element.gap` — what indentation puts in front of a part: a line break before the tags of the
  children of a spread element and before its end tag, and nothing anywhere else;
* `toIndentedHtml_layout` — indented HTML is compact HTML with these gaps and a final line break.

Design notes: whether an element is spread depends on the elements around it, up to the root, so all
addresses are those of one tree.  The induction is over a part of that tree that stands at some
address, and what is carried along is whether an element around it has a text.
-/
import Mathlib.Data.List.Infix
import Transclude.Output.Html

namespace Transclude.Output.Element

variable {κ : Type}

/-! ### Addresses -/

/-- The element at an address: the places of the children on the way to it. -/
def at? (e : Element κ) : List Nat → Option (Element κ)
  | [] => some e
  | i :: p => (e.children[i]?.bind Node.element?).bind fun c => c.at? p

theorem at?_append (e : Element κ) (p q : List Nat) :
    e.at? (p ++ q) = (e.at? p).bind fun d => d.at? q := by
  induction p generalizing e with
  | nil => rfl
  | cons i p ih =>
    rw [List.cons_append, at?, at?]
    cases e.children[i]?.bind Node.element? with
    | none => rfl
    | some c => exact ih c

theorem at?_concat {e d : Element κ} {p : List Nat} (h : e.at? p = some d) (i : Nat) :
    e.at? (p ++ [i]) = d.children[i]?.bind Node.element? := by
  rw [at?_append, h, Option.bind_some, at?]
  cases d.children[i]?.bind Node.element? <;> rfl

/-- Whether a text is among the children. -/
def hasText (e : Element κ) : Bool := e.children.any Node.isText

/-- Whether the element at an address or one around it has a text among its children. -/
def isInline (e : Element κ) (p : List Nat) : Bool :=
  p.inits.any fun q => (e.at? q).any hasText

/-- Whether an element around the one at an address has a text among its children. -/
def isEnclosed (e : Element κ) (p : List Nat) : Bool := !p.isEmpty && e.isInline p.dropLast

/-- Whether the element at an address has its children on lines of their own: it can have content, a
child is an element, and no text is among its children or those of an element around it. -/
def isSpread (e : Element κ) (p : List Nat) : Bool :=
  (e.at? p).any (fun d => !isVoid d.tag && !d.childElements.isEmpty) && !e.isInline p

theorem isInline_of_at? {e d : Element κ} {p : List Nat} (h : e.at? p = some d) :
    e.isInline p = (e.isEnclosed p || d.hasText) := by
  rcases List.eq_nil_or_concat' p with rfl | ⟨q, i, rfl⟩
  · simp [isInline, isEnclosed, h]
  · have hne : (q ++ [i]).isEmpty = false := by simp
    rw [isInline, List.inits_append, List.any_append, isEnclosed, hne]
    simp [isInline, h]

theorem isEnclosed_concat (e : Element κ) (p : List Nat) (i : Nat) :
    e.isEnclosed (p ++ [i]) = e.isInline p := by
  simp [isEnclosed]

theorem isSpread_of_at? {e d : Element κ} {p : List Nat} (h : e.at? p = some d)
    (hinline : e.isInline p = false) :
    e.isSpread p = (!isVoid d.tag && !d.childElements.isEmpty) := by
  simp [isSpread, h, hinline]

theorem isSpread_of_isInline {e : Element κ} {p : List Nat} (h : e.isInline p = true) :
    e.isSpread p = false := by
  simp [isSpread, h]

end Transclude.Output.Element

namespace Transclude.Output

/-! ### Parts of a page -/

/-- A tag or a text of a page, with the address of the element that it belongs to. -/
inductive Part where
  | opening (address : List Nat) (chars : List Char)
  | text (address : List Nat) (chars : List Char)
  | closing (address : List Nat) (chars : List Char)
  deriving DecidableEq

/-- A part as it is written. -/
def Part.chars : Part → List Char
  | opening _ cs => cs
  | text _ cs => cs
  | closing _ cs => cs

namespace Element

variable {κ : Type}

mutual

/-- The tags and texts of an element at an address, in the order of the page. -/
def parts (p : List Nat) : Element κ → List Part
  | ⟨tag, attrs, children, _⟩ =>
    .opening p (startTag tag attrs) ::
      if isVoid tag then [] else partsAmong p 0 children ++ [.closing p (endTag tag)]

/-- The tags and texts of the children of the element at an address, from a place on. -/
def partsAmong (p : List Nat) : Nat → List (Node κ) → List Part
  | _, [] => []
  | i, .text s :: ns => .text p (escapeText s) :: partsAmong p (i + 1) ns
  | i, .element e :: ns => parts (p ++ [i]) e ++ partsAmong p (i + 1) ns

end

/-- What indentation puts in front of a part of a tree. -/
def gap (e : Element κ) : Part → List Char
  | .opening p _ => if !p.isEmpty && e.isSpread p.dropLast then lineBreak p.length else []
  | .text _ _ => []
  | .closing p _ => if e.isSpread p then lineBreak p.length else []

/-- Parts of a tree with what indentation puts in front of them. -/
def laidOut (e : Element κ) (ps : List Part) : List Char :=
  ps.flatMap fun part => e.gap part ++ part.chars

@[simp] theorem laidOut_nil (e : Element κ) : e.laidOut [] = [] := rfl

@[simp] theorem laidOut_cons (e : Element κ) (part : Part) (ps : List Part) :
    e.laidOut (part :: ps) = e.gap part ++ part.chars ++ e.laidOut ps := rfl

@[simp] theorem laidOut_append (e : Element κ) (ps qs : List Part) :
    e.laidOut (ps ++ qs) = e.laidOut ps ++ e.laidOut qs := List.flatMap_append

/-! ### Compact pages -/

mutual

theorem chars_parts (p : List Nat) : ∀ d : Element κ, (parts p d).flatMap Part.chars = d.html
  | ⟨tag, attrs, children, handlers⟩ => by
    rw [parts, html, List.flatMap_cons, Part.chars]
    split
    · rfl
    · rw [List.flatMap_append, chars_partsAmong p 0 children]
      simp [Part.chars]

theorem chars_partsAmong (p : List Nat) : ∀ (i : Nat) (ns : List (Node κ)),
    (partsAmong p i ns).flatMap Part.chars = htmlAmong ns
  | _, [] => rfl
  | i, .text s :: ns => by
    rw [partsAmong, htmlAmong, List.flatMap_cons, Part.chars, chars_partsAmong p (i + 1) ns]
  | i, .element e :: ns => by
    rw [partsAmong, htmlAmong, List.flatMap_append, chars_parts (p ++ [i]) e,
      chars_partsAmong p (i + 1) ns]

end

/-! ### Indented pages -/

theorem gap_opening_concat (e : Element κ) (p : List Nat) (i : Nat) (cs : List Char) :
    e.gap (.opening (p ++ [i]) cs) = if e.isSpread p then lineBreak (p.length + 1) else [] := by
  simp [gap]

/-- Without texts, an element without child elements has no children. -/
theorem isEmpty_childElements {d : Element κ} (h : d.hasText = false) :
    d.childElements.isEmpty = d.children.isEmpty := by
  rw [hasText] at h
  rw [childElements]
  cases hc : d.children with
  | nil => rfl
  | cons n ns =>
    rw [hc] at h
    cases n with
    | text s => simp [Node.isText] at h
    | element c => rfl

/-- An element with a text among its children is written in the same way on every level. -/
theorem indented_of_hasText (level : Nat) {d : Element κ} (h : d.hasText = true) :
    indented level d = d.html := by
  obtain ⟨tag, attrs, children, handlers⟩ := d
  rw [hasText] at h
  rw [indented, html, if_pos h]

variable {e : Element κ}

mutual

/-- Below an element with a text the parts of a tree are written as in compact HTML, and else as in
indented HTML of their level. -/
theorem laidOut_parts : ∀ (d : Element κ) (p : List Nat), e.at? p = some d →
    e.laidOut (parts p d) = e.gap (.opening p (startTag d.tag d.attributes)) ++
      if e.isEnclosed p then d.html else indented p.length d
  | ⟨tag, attrs, children, handlers⟩, p, h => by
    rw [parts, laidOut_cons, Part.chars, html, indented]
    by_cases hvoid : isVoid tag = true
    · simp [hvoid]
    have hchildren := laidOut_partsAmong children [] p h rfl (by simpa using hvoid)
    rw [List.length_nil] at hchildren
    have hclosing : ∀ cs, e.gap (.closing p cs) = if e.isSpread p then lineBreak p.length else [] :=
      fun _ => rfl
    rw [if_neg hvoid, if_neg hvoid, if_neg hvoid, laidOut_append, hchildren, laidOut_cons,
      laidOut_nil, Part.chars, hclosing]
    have hinline := isInline_of_at? h
    cases hin : e.isInline p with
    | true =>
      -- a text of the element itself also keeps its children on one line
      rw [hin, hasText] at hinline
      rw [isSpread_of_isInline hin]
      by_cases henclosed : e.isEnclosed p = true
      · simp [henclosed]
      · have htext : children.any Node.isText = true := by simpa [henclosed] using hinline.symm
        simp only [henclosed, htext]
        simp
    | false =>
      rw [hin] at hinline
      obtain ⟨henclosed, htext⟩ := Bool.or_eq_false_iff.mp hinline.symm
      have hspread : e.isSpread p = !children.isEmpty := by
        rw [isSpread_of_at? h hin, isEmpty_childElements htext]
        simp [hvoid]
      rw [hasText] at htext
      cases children with
      | nil => simp [henclosed, hspread]
      | cons n ns => simp only [henclosed, htext, hspread]; simp

/-- The children of an element from some place on, likewise. -/
theorem laidOut_partsAmong : ∀ (ns before : List (Node κ)) (p : List Nat) {d : Element κ},
    e.at? p = some d → d.children = before ++ ns → isVoid d.tag = false →
    e.laidOut (partsAmong p before.length ns) =
      if e.isInline p then htmlAmong ns else indentedAmong (p.length + 1) ns
  | [], _, _, _, _, _, _ => by simp [partsAmong, htmlAmong, indentedAmong]
  | .text s :: ns, before, p, d, h, hd, hvoid => by
    have hinline : e.isInline p = true := by
      rw [isInline_of_at? h, hasText, hd]
      simp [Node.isText]
    have hrest := laidOut_partsAmong ns (before ++ [.text s]) p h (by simpa using hd) hvoid
    rw [List.length_append, List.length_singleton, hinline] at hrest
    rw [partsAmong, laidOut_cons, hrest, hinline, htmlAmong, gap, Part.chars]
    rfl
  | .element c :: ns, before, p, d, h, hd, hvoid => by
    have hc : e.at? (p ++ [before.length]) = some c := by
      rw [at?_concat h, hd]
      simp [Node.element?]
    have hrest := laidOut_partsAmong ns (before ++ [.element c]) p h (by simpa using hd) hvoid
    rw [List.length_append, List.length_singleton] at hrest
    rw [partsAmong, laidOut_append, laidOut_parts c _ hc, hrest, isEnclosed_concat,
      gap_opening_concat, htmlAmong, indentedAmong, List.length_append, List.length_singleton]
    cases hin : e.isInline p with
    | true =>
      rw [isSpread_of_isInline hin]
      rfl
    | false =>
      have hspread : e.isSpread p = true := by
        rw [isSpread_of_at? h hin, hvoid, childElements, hd]
        simp [Node.element?]
      rw [hspread]
      simp

end

/-! ### One element of a page -/

theorem exists_partsAmong_eq {ns : List (Node κ)} {i : Nat} {c : Element κ}
    (h : ns[i]? = some (.element c)) (p : List Nat) (j : Nat) :
    ∃ before after, partsAmong p j ns = before ++ (parts (p ++ [j + i]) c ++ after) := by
  induction ns generalizing i j with
  | nil => cases h
  | cons n ns ih =>
    cases i with
    | zero =>
      cases h
      exact ⟨[], partsAmong p (j + 1) ns, rfl⟩
    | succ i =>
      obtain ⟨before, after, hrest⟩ := ih (i := i) (by simpa using h) (j + 1)
      rw [Nat.succ_add_eq_add_succ] at hrest
      cases n with
      | text s => exact ⟨.text p (escapeText s) :: before, after, by rw [partsAmong, hrest]; rfl⟩
      | element d =>
        refine ⟨parts (p ++ [j]) d ++ before, after, ?_⟩
        rw [partsAmong, hrest, List.append_assoc]

/-- An element is on the page as a whole if no element around it is void. -/
theorem exists_parts_eq {p : List Nat} {e d : Element κ} (hd : e.at? p = some d)
    (hshown : ∀ q c, q <+: p → q ≠ p → e.at? q = some c → isVoid c.tag = false) (a : List Nat) :
    ∃ before after, parts a e = before ++ (parts (a ++ p) d ++ after) := by
  induction p generalizing e a with
  | nil =>
    cases hd
    exact ⟨[], [], by simp⟩
  | cons i p ih =>
    obtain ⟨c, hc, hcd⟩ := Option.bind_eq_some_iff.mp hd
    obtain ⟨n, hn, hnc⟩ := Option.bind_eq_some_iff.mp hc
    cases n with
    | text s => cases hnc
    | element c' =>
      cases hnc
      have hvoid : isVoid e.tag = false := hshown [] e List.nil_prefix (by simp) rfl
      -- the part of the page that the child takes up, and the element in it
      obtain ⟨us, ws, hamong⟩ := exists_partsAmong_eq hn a 0
      obtain ⟨before, after, hparts⟩ := ih hcd (fun q b hq hne hb =>
        hshown (i :: q) b (List.cons_prefix_cons.mpr ⟨rfl, hq⟩) (by simpa using hne)
          (by rw [at?, hc]; exact hb)) (a ++ [i])
      rw [Nat.zero_add, hparts] at hamong
      obtain ⟨tag, attrs, children, handlers⟩ := e
      refine ⟨.opening a (startTag tag attrs) :: (us ++ before),
        after ++ ws ++ [.closing a (endTag tag)], ?_⟩
      rw [parts, if_neg (by simpa using hvoid), hamong]
      simp

/-- **Indentation adds line breaks between tags, and nothing else.**  Compact and indented HTML write
the same tags and texts in the same order.  Indentation puts a line break and the blanks of its level
in front of the start tag of every child element of a spread element, and in front of the end tag of
that element; a line break comes last of all.  An element with a text among its children is written in
both in the same way. -/
theorem toIndentedHtml_layout (e : Element κ) :
    e.toHtml = String.ofList ((parts [] e).flatMap Part.chars) ∧
    e.toIndentedHtml = String.ofList (e.laidOut (parts [] e) ++ ['\n']) ∧
    ∀ p d, e.at? p = some d → d.hasText = true →
      (∀ q c, q <+: p → q ≠ p → e.at? q = some c → isVoid c.tag = false) →
        ∃ before after, parts [] e = before ++ (parts p d ++ after) ∧
          e.toHtml = String.ofList
            (before.flatMap Part.chars ++ (d.html ++ after.flatMap Part.chars)) ∧
          e.toIndentedHtml = String.ofList (e.laidOut before ++
            e.gap (.opening p (startTag d.tag d.attributes)) ++
              (d.html ++ (e.laidOut after ++ ['\n']))) := by
  have hcompact : e.toHtml = String.ofList ((parts [] e).flatMap Part.chars) := by
    rw [chars_parts]
    rfl
  have hindented : e.toIndentedHtml = String.ofList (e.laidOut (parts [] e) ++ ['\n']) := by
    rw [laidOut_parts e [] rfl]
    rfl
  refine ⟨hcompact, hindented, fun p d hd htext hshown => ?_⟩
  obtain ⟨before, after, hparts⟩ := exists_parts_eq hd hshown []
  rw [List.nil_append] at hparts
  have hwritten : e.laidOut (parts p d) =
      e.gap (.opening p (startTag d.tag d.attributes)) ++ d.html := by
    rw [laidOut_parts d p hd, indented_of_hasText p.length htext, ite_self]
  refine ⟨before, after, hparts, ?_, ?_⟩
  · rw [hcompact, hparts, List.flatMap_append, List.flatMap_append, chars_parts]
  · rw [hindented, hparts, laidOut_append, laidOut_append, hwritten]
    simp only [List.append_assoc]

/-- A paragraph with a text and an element, after a void element. -/
theorem toIndentedHtml_layout_of_mixed_paragraph :
    let paragraph : Element Unit :=
      ⟨"p", [], [.text "a < b, ", .element ⟨"b", [], [.element ⟨"i", [], [], []⟩], []⟩], []⟩
    let page : Element Unit := ⟨"div", [], [.element ⟨"br", [], [], []⟩, .element paragraph], []⟩
    page.at? [1] = some paragraph ∧ paragraph.hasText = true ∧ isVoid page.tag = false ∧
    ∃ before after, parts [] page = before ++ (parts [1] paragraph ++ after) ∧
      "<div><br><p>a &lt; b, <b><i></i></b></p></div>" = String.ofList
        (before.flatMap Part.chars ++ (paragraph.html ++ after.flatMap Part.chars)) ∧
      "<div>\n  <br>\n  <p>a &lt; b, <b><i></i></b></p>\n</div>\n" = String.ofList
        (page.laidOut before ++ lineBreak 1 ++
          (paragraph.html ++ (page.laidOut after ++ ['\n']))) := by
  intro paragraph page
  have hshown : ∀ q c, q <+: [1] → q ≠ [1] → page.at? q = some c → isVoid c.tag = false := by
    intro q c hq hne hc
    obtain rfl : q = [] := by
      rcases List.prefix_cons_iff.mp hq with rfl | ⟨r, rfl, hr⟩
      · rfl
      · rw [List.prefix_nil.mp hr] at hne
        exact absurd rfl hne
    cases hc
    rfl
  have hcompact : page.toHtml = "<div><br><p>a &lt; b, <b><i></i></b></p></div>" := by decide
  have hindented : page.toIndentedHtml =
      "<div>\n  <br>\n  <p>a &lt; b, <b><i></i></b></p>\n</div>\n" := by decide
  have hgap : page.gap (.opening [1] (startTag "p" [])) = lineBreak 1 := by decide
  obtain ⟨before, after, hparts, hwritten, hlaid⟩ :=
    (toIndentedHtml_layout page).2.2 [1] paragraph rfl rfl hshown
  rw [hcompact] at hwritten
  rw [hindented, hgap] at hlaid
  exact ⟨rfl, rfl, rfl, before, after, hparts, hwritten, hlaid⟩

end Element

end Transclude.Output
