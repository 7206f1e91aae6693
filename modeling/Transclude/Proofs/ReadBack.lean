/-
Output read back as markup.

* `Element.writable` — elements whose tags and attributes have names of markup, with end tags and
  with distinct attributes;
* `Element.markup` — the tree that stays of one: bound functions are forgotten, texts that follow
  one another are one text, and empty texts are none;
* `parse_toHtml` — this tree is what the written element is parsed to.

Design notes: written nodes advance any stage inside an element.  The text before them may still go
on, so it is pending: its characters are in the scanner, and it is no node yet.  The text that the
nodes end with is left pending in the same way.
-/
import Transclude.Proofs.Advance

namespace Transclude

/-! ### Trees -/

namespace Output.Element

open Markup

variable {κ : Type}

mutual

/-- Whether markup can tell the parts of an element and of those below it: its tag and the names of
its attributes are names, it has an end tag, and no attribute stands twice. -/
def writable : Output.Element κ → Bool
  | ⟨tag, attrs, children, _⟩ =>
    isName tag.toList && !isVoid tag && attrs.all (fun a => isName a.1.toList)
      && decide (attrs.map Prod.fst).Nodup && writableAmong children

/-- Whether all elements among some nodes and below them are writable. -/
def writableAmong : List (Output.Node κ) → Bool
  | [] => true
  | .text _ :: ns => writableAmong ns
  | .element e :: ns => writable e && writableAmong ns

end

mutual

/-- The tree of markup that an element writes: texts that follow one another are one text, and empty
ones are none. -/
def markup : Output.Element κ → Markup.Element
  | ⟨tag, attrs, children, _⟩ => ⟨tag, attrs, markupAmong children⟩

/-- The trees of markup that some nodes write. -/
def markupAmong : List (Output.Node κ) → List Markup.Node
  | [] => []
  | .text s :: ns => joinText s (markupAmong ns)
  | .element e :: ns => .element (markup e) :: markupAmong ns

end

end Output.Element

namespace Markup

open Output.Element

variable {κ : Type}

mutual

/-- A written element advances every stage in which markup can begin. -/
theorem advances_html : ∀ (e : Output.Element κ), e.writable = true →
    ∀ {g : Stage} {os : List (List Char)} {b b' : Builder}, g.Steps '<' ⟨.markup, os, b⟩ →
      (∀ position, b.attach e.markup position = .ok b') → Advances g e.html ⟨.text [], os, b'⟩
  | ⟨tag, attrs, children, handlers⟩, hw, g, os, b, b', hg, hb => by
    rw [writable] at hw
    simp only [Bool.and_eq_true, Bool.not_eq_true', List.all_eq_true, decide_eq_true_eq] at hw
    obtain ⟨⟨⟨⟨ht, hvoid⟩, hn⟩, hd⟩, hchildren⟩ := hw
    have hwritten : html ⟨tag, attrs, children, handlers⟩ =
        '<' :: (tagHtml tag attrs ++ ['>']) ++
          (htmlAmong children ++ '<' :: '/' :: (tag.toList ++ ['>'])) := by
      simp [html, hvoid, Output.startTag, Output.endTag, tagHtml]
    rw [markup] at hb
    obtain ⟨q, done, hdone, heq, hadv⟩ := advances_htmlAmong children hchildren ""
      (tag.toList :: os) tag attrs [] b.opened b.root (fun ⟨ms, s, h⟩ => by simp at h)
    rw [joinText_empty, List.nil_append] at heq
    -- the `<` of the end tag ends the last text of the children
    have hlt := steps_lt tag attrs hdone q (tag.toList :: os) b.opened b.root
    rw [heq] at hlt
    rw [hwritten]
    exact (Advances.cons hg (advances_startTag ht hn hd os b)).append
      (hadv.append (.cons hlt (advances_endTag ht os hb)))

/-- Written nodes advance every stage in an element; what they leave pending is their last text. -/
theorem advances_htmlAmong : ∀ (ns : List (Output.Node κ)), writableAmong ns = true →
    ∀ (p : String) (os : List (List Char)) (name : String) (attrs : List (String × String))
      (before : List Node) (outer : List Element) (root : Option Element), ¬EndsInText before →
      ∃ q done, ¬EndsInText done ∧
        done ++ joinText q [] = before ++ joinText p (markupAmong ns) ∧
        Advances
          ⟨.text (Output.escapeText p).reverse, os, ⟨⟨name, attrs, before⟩ :: outer, root⟩⟩
          (htmlAmong ns)
          ⟨.text (Output.escapeText q).reverse, os, ⟨⟨name, attrs, done⟩ :: outer, root⟩⟩
  | [], _, p, os, name, attrs, before, outer, root, hend => by
    refine ⟨p, before, hend, ?_, ?_⟩
    · rw [markupAmong]
    · rw [htmlAmong]
      exact .nil _
  | .text s :: ns, hw, p, os, name, attrs, before, outer, root, hend => by
    rw [writableAmong] at hw
    obtain ⟨q, done, hdone, heq, hadv⟩ :=
      advances_htmlAmong ns hw (p ++ s) os name attrs before outer root hend
    refine ⟨q, done, hdone, ?_, ?_⟩
    · rw [heq, markupAmong, joinText_append]
    · have hescape : (Output.escapeText (p ++ s)).reverse =
          (Output.escapeText s).reverse ++ (Output.escapeText p).reverse := by
        simp [Output.escapeText]
      rw [hescape] at hadv
      rw [htmlAmong]
      exact (advances_text s os _ _).append hadv
  | .element e :: ns, hw, p, os, name, attrs, before, outer, root, hend => by
    rw [writableAmong, Bool.and_eq_true] at hw
    have helement := advances_html e hw.1 (steps_lt name attrs hend p os outer root)
      (fun _ => rfl)
    obtain ⟨q, done, hdone, heq, hadv⟩ := advances_htmlAmong ns hw.2 "" os name attrs
      (before ++ joinText p [] ++ [.element e.markup]) outer root (not_endsInText_element _ _)
    refine ⟨q, done, hdone, ?_, ?_⟩
    · rw [heq, joinText_empty, markupAmong, joinText_element]
      simp
    · rw [htmlAmong]
      exact helement.append hadv

end

/-! ### Documents -/

/-- **Written output is read back.**  A writable tree is parsed to the tree of markup that it
writes: no text and no value of an attribute adds, closes or changes markup. -/
theorem parse_toHtml (e : Output.Element κ) (h : e.writable = true) :
    parse e.toHtml = .ok e.markup := by
  have hstart : Stage.Steps ⟨.text [], [], .start⟩ '<' ⟨.markup, [], .start⟩ := by
    intro start position
    exact ⟨[], position, position + 1, rfl, rfl⟩
  have hadv : Advances ⟨.text [], [], .start⟩ e.html ⟨.text [], [], ⟨[], some e.markup⟩⟩ :=
    advances_html e h hstart fun _ => rfl
  obtain ⟨es, start', position', hbuild, hrun⟩ := hadv.run 0 0
  have hevents : events e.html = (es, none) := by
    have hmark : withoutMark e.html = e.html ++ [] := by
      obtain ⟨tag, attrs, children, handlers⟩ := e
      rw [List.append_nil]
      rfl
    rw [events, hmark]
    exact (hrun []).trans (by simp [Scanner.run, Scanner.finish, Scanner.endText])
  have hroot : Builder.start.run es = .ok ⟨[], some e.markup⟩ := hbuild
  rw [parse, toHtml, String.toList_ofList, hevents]
  simp only [hroot]
  rfl

/-- Characters of markup in texts and in a value, texts side by side, and an empty text. -/
theorem parse_toHtml_of_markup_in_texts :
    (⟨"p", [("title", "\">a&b<")], [.text "</p>", .text "&lt;",
      .element ⟨"b:c", [], [.text ""], []⟩, .text "'"], []⟩ : Output.Element Unit).writable = true ∧
    parse (⟨"p", [("title", "\">a&b<")], [.text "</p>", .text "&lt;",
      .element ⟨"b:c", [], [.text ""], []⟩, .text "'"], []⟩ : Output.Element Unit).toHtml =
      .ok ⟨"p", [("title", "\">a&b<")], [.text "</p>&lt;", .element ⟨"b:c", [], []⟩, .text "'"]⟩ :=
  ⟨by decide, parse_toHtml _ (by decide)⟩

end Markup

end Transclude
