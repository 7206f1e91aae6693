/-
From the text of a document to its events.

The text is read character by character.  Texts reach up to the next `<`; what follows it decides
where the construct ends: a tag at the first `>` outside quotes, a comment at `-->`, a CDATA section
at `]]>`, a declaration or instruction at `?>`, and a document type at the `>` that balances its `<`.

* `events` — the events of a text up to its end or the first fault;
* `Reading` — the construct that is being read.

Design notes: a byte order mark at the start is not part of the document.  Tags are matched here: an
end tag has to name the innermost open element.  Comments, instructions and document types are
`other` events; no meaning is taken from them.
-/
import Transclude.Markup.Attribute

namespace Transclude.Markup

/-- A construct of a document; texts and attribute values are unescaped. -/
inductive Event where
  | opening (name : String) (attributes : List (String × String))
  | empty (name : String) (attributes : List (String × String))
  | closing
  | text (s : String)
  | cdata (s : String)
  | other
  deriving DecidableEq

/-- An event and the byte offset where its construct begins. -/
structure Located where
  event : Event
  position : Nat
  deriving DecidableEq

/-- The construct that is being read; what is read of it is kept with its last character first. -/
inductive Reading where
  | text (read : List Char)
  /-- After `<`. -/
  | markup
  /-- A start or end tag, maybe inside a quoted value. -/
  | tag (read : List Char) (quote : Option Char)
  /-- A declaration or instruction; the `?` it begins with does not end it. -/
  | instruction (read : List Char)
  /-- After `<!`. -/
  | bang
  | comment (read : List Char)
  | cdata (read : List Char)
  /-- A document type, with the number of `<` in it that are still open. -/
  | doctype (read : List Char) (depth : Nat)

/-- Where the scanner stands. -/
structure Scanner where
  /-- The byte offset where the construct at hand began. -/
  start : Nat
  position : Nat
  reading : Reading
  /-- The names of the open elements, innermost first. -/
  opened : List (List Char)

namespace Scanner

/-- The scanner between constructs. -/
def between (position : Nat) (opened : List (List Char)) : Scanner :=
  ⟨position, position, .text [], opened⟩

/-- A fault of the construct at hand. -/
def fault {α : Type} (s : Scanner) (f : Fault) : Except ParseError α := .error ⟨s.start, f⟩

/-- The event of a text that ends where the scanner stands; an empty one is none. -/
def endText (s : Scanner) (read : List Char) : Except ParseError (List Located) :=
  if read.isEmpty then .ok []
  else
    match unescape read.reverse with
    | .error e => s.fault (.badEntity e)
    | .ok cs => .ok [⟨.text (String.ofList cs), s.start⟩]

/-- The name in an end tag, without the blanks after it; a tag of blanks alone keeps them. -/
def endName (content : List Char) : List Char :=
  if content.all isSpace then content else (content.reverse.dropWhile isSpace).reverse

/-- The event of an end tag, after its slash, and the elements still open. -/
def endTag (s : Scanner) (content : List Char) : Except ParseError (Event × List (List Char)) :=
  let name := endName content
  match s.opened with
  | [] => s.fault (.unmatchedEnd (String.ofList name))
  | o :: opened =>
    if o = name then .ok (.closing, opened)
    else s.fault (.mismatchedEnd (String.ofList o) (String.ofList name))

/-- The name and the attributes in a start tag. -/
def startTag (s : Scanner) (content : List Char) :
    Except ParseError (List Char × List (String × String)) :=
  let name := content.takeWhile (fun c => !isSpace c)
  match attributes (Text.byteLength name) (content.dropWhile (fun c => !isSpace c)) with
  | .error e => s.fault e
  | .ok attrs => .ok (name, attrs)

/-- The event of a tag, and the elements then open; a slash at its end makes an element empty. -/
def tag (s : Scanner) (read : List Char) : Except ParseError (Event × List (List Char)) :=
  match read.reverse, read with
  | '/' :: content, _ => s.endTag content
  | _, '/' :: read =>
    match s.startTag read.reverse with
    | .error e => .error e
    | .ok (name, attrs) => .ok (.empty (String.ofList name) attrs, s.opened)
  | content, _ =>
    match s.startTag content with
    | .error e => .error e
    | .ok (name, attrs) => .ok (.opening (String.ofList name) attrs, name :: s.opened)

/-- The event of a CDATA section, after its `<!`; the text in it is taken as it is. -/
def cdata (s : Scanner) (content : List Char) : Except ParseError Event :=
  let lead := "[CDATA[".toList
  if lead.isPrefixOf content then
    .ok (.cdata (String.ofList ((content.drop lead.length).dropLast.dropLast)))
  else s.fault .unclosedCdata

/-- A document type, after its `<!`, which may be written in letters of either case; it has to have a
name. -/
def doctype (s : Scanner) (content : List Char) : Except ParseError Event :=
  let lead := "DOCTYPE".toList
  if lead.isPrefixOf (content.map Char.toUpper) then
    if (content.drop lead.length).all isSpace then .error ⟨s.position, .namelessDoctype⟩
    else .ok .other
  else s.fault .unclosedDoctype

/-- Goes on with the construct at hand. -/
def more (s : Scanner) (c : Char) (reading : Reading) :
    Except ParseError (List Located × Scanner) :=
  .ok ([], { s with position := s.position + c.utf8Size, reading := reading })

/-- Ends the construct at hand with an event. -/
def ended (s : Scanner) (c : Char) (result : Except ParseError (Event × List (List Char))) :
    Except ParseError (List Located × Scanner) :=
  match result with
  | .error e => .error e
  | .ok (event, opened) => .ok ([⟨event, s.start⟩], between (s.position + c.utf8Size) opened)

/-- Reads one more character of a tag. -/
def stepTag (s : Scanner) (read : List Char) (quote : Option Char) (c : Char) :
    Except ParseError (List Located × Scanner) :=
  match quote with
  | some q => s.more c (.tag (c :: read) (if c = q then none else some q))
  | none =>
    if c = '>' then s.ended c (s.tag read)
    else s.more c (.tag (c :: read) (if c = '"' ∨ c = '\'' then some c else none))

/-- Reads one more character. -/
def step (s : Scanner) (c : Char) : Except ParseError (List Located × Scanner) :=
  let keep (result : Except ParseError Event) : Except ParseError (Event × List (List Char)) :=
    result.map fun e => (e, s.opened)
  match s.reading with
  | .text read =>
    if c = '<' then
      match s.endText read with
      | .error e => .error e
      | .ok ended => .ok (ended, ⟨s.position, s.position + 1, .markup, s.opened⟩)
    else s.more c (.text (c :: read))
  | .markup =>
    if c = '!' then s.more c .bang
    else if c = '?' then s.more c (.instruction [c])
    else s.stepTag [] none c
  | .tag read quote => s.stepTag read quote c
  | .instruction read =>
    if c = '>' ∧ read.head? = some '?' then
      s.ended c (keep (if read.length = 1 then s.fault .unclosedInstruction else .ok .other))
    else s.more c (.instruction (c :: read))
  | .bang =>
    if c = '[' then s.more c (.cdata [c])
    else if c = '-' then s.more c (.comment [c])
    else if c = 'D' ∨ c = 'd' then s.more c (.doctype [c] 0)
    else s.fault .unknownMarkup
  | .comment read =>
    if c = '>' ∧ 4 ≤ read.length ∧ read.take 2 = ['-', '-'] then
      s.ended c (keep (if ['-', '-'].isPrefixOf read.reverse then .ok .other
        else s.fault .unclosedComment))
    else s.more c (.comment (c :: read))
  | .cdata read =>
    if c = '>' ∧ read.take 2 = [']', ']'] then s.ended c (keep (s.cdata read.reverse))
    else s.more c (.cdata (c :: read))
  | .doctype read depth =>
    if c = '>' then
      match depth with
      | 0 => s.ended c (keep (s.doctype read.reverse))
      | depth + 1 => s.more c (.doctype (c :: read) depth)
    else s.more c (.doctype (c :: read) (if c = '<' then depth + 1 else depth))

/-- The events at the end of the text; a construct that is still open is a fault. -/
def finish (s : Scanner) : Except ParseError (List Located) :=
  match s.reading with
  | .text read => s.endText read
  | .markup => s.fault .unclosedTag
  | .tag _ _ => s.fault .unclosedTag
  | .instruction _ => s.fault .unclosedInstruction
  | .bang => s.fault .unknownMarkup
  | .comment _ => s.fault .unclosedComment
  | .cdata _ => s.fault .unclosedCdata
  | .doctype _ _ => s.fault .unclosedDoctype

/-- The events of the rest of a text, and the fault that ended them early. -/
def run (s : Scanner) : List Char → List Located × Option ParseError
  | [] =>
    match s.finish with
    | .ok events => (events, none)
    | .error e => ([], some e)
  | c :: cs =>
    match s.step c with
    | .error e => ([], some e)
    | .ok (events, s') =>
      let (later, e) := s'.run cs
      (events ++ later, e)

end Scanner

/-- The text without a byte order mark at its start. -/
def withoutMark : List Char → List Char
  | [] => []
  | c :: cs => if c = '\uFEFF' then cs else c :: cs

/-- The events of a document up to its end or its first fault. -/
def events (text : List Char) : List Located × Option ParseError :=
  (Scanner.between 0 []).run (withoutMark text)

end Transclude.Markup
