/-
Output trees as HTML text.

* `Element.toHtml` — compact: nothing stands between the tags but the texts of the tree;
* `Element.toIndentedHtml` — every child element on a line of its own, two blanks per level, except
  in and below an element that has a text among its children, where blanks would count.

Void elements have no content and no end tag, whatever their children.
-/
import Transclude.Output.Element

namespace Transclude.Output

/-- The tags of the elements that never have content. -/
def voidTags : List String :=
  ["area", "base", "br", "col", "embed", "hr", "img", "input", "link", "meta", "source", "track",
    "wbr"]

/-- Whether elements with this tag never have content. -/
def isVoid (tag : String) : Bool := voidTags.contains tag

/-- A character of a text. -/
def escapeTextChar (c : Char) : List Char :=
  if c = '&' then "&amp;".toList
  else if c = '<' then "&lt;".toList
  else if c = '>' then "&gt;".toList
  else [c]

/-- A character of an attribute value. -/
def escapeValueChar (c : Char) : List Char :=
  if c = '"' then "&quot;".toList else escapeTextChar c

/-- A text with its special characters escaped. -/
def escapeText (s : String) : List Char := s.toList.flatMap escapeTextChar

/-- An attribute in a start tag, with the blank before it. -/
def attributeHtml (a : String × String) : List Char :=
  ' ' :: (a.1.toList ++ '=' :: '"' :: (a.2.toList.flatMap escapeValueChar ++ ['"']))

/-- A start tag. -/
def startTag (tag : String) (attributes : List (String × String)) : List Char :=
  '<' :: (tag.toList ++ (attributes.flatMap attributeHtml ++ ['>']))

/-- An end tag. -/
def endTag (tag : String) : List Char := '<' :: '/' :: (tag.toList ++ ['>'])

/-- A line break and the indentation of a level. -/
def lineBreak (level : Nat) : List Char := '\n' :: List.replicate (2 * level) ' '

namespace Element

variable {κ : Type}

mutual

/-- An element as compact HTML. -/
def html : Element κ → List Char
  | ⟨tag, attrs, children, _⟩ =>
    startTag tag attrs ++ if isVoid tag then [] else htmlAmong children ++ endTag tag

/-- Nodes as compact HTML. -/
def htmlAmong : List (Node κ) → List Char
  | [] => []
  | .text s :: ns => escapeText s ++ htmlAmong ns
  | .element e :: ns => html e ++ htmlAmong ns

end

mutual

/-- An element as indented HTML, on a level. -/
def indented : Nat → Element κ → List Char
  | level, ⟨tag, attrs, children, _⟩ =>
    startTag tag attrs ++
      if isVoid tag then []
      else if children.any Node.isText then htmlAmong children ++ endTag tag
      else
        indentedAmong (level + 1) children
          ++ ((if children.isEmpty then [] else lineBreak level) ++ endTag tag)

/-- Elements as indented HTML, each on a line of its own. -/
def indentedAmong : Nat → List (Node κ) → List Char
  | _, [] => []
  | level, .text _ :: ns => indentedAmong level ns
  | level, .element e :: ns => lineBreak level ++ (indented level e ++ indentedAmong level ns)

end

/-- The tree as compact HTML. -/
def toHtml (e : Element κ) : String := String.ofList e.html

/-- The tree as indented HTML, with a line break at its end. -/
def toIndentedHtml (e : Element κ) : String := String.ofList (indented 0 e ++ ['\n'])

end Element

end Transclude.Output
