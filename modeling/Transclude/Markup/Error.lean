/-
What can be wrong with markup.

* `Fault` — the causes, from a missing bracket to a second root element;
* `Fault.message` — the wording of each;
* `ParseError` — a fault and the byte offset of the construct it was found in.
-/

namespace Transclude.Markup

/-- What is wrong with a character reference by number. -/
inductive ReferenceFault where
  | zero
  | notACharacter (code : Nat)
  | sign
  | noDigits
  | invalidDigit
  | tooLarge
  deriving DecidableEq

/-- The wording of a reference fault. -/
def ReferenceFault.message : ReferenceFault → String
  | zero => "0x0 character is not permitted in XML"
  | notACharacter code => "`" ++ toString code ++ "` is not a valid codepoint"
  | sign => "unexpected number sign"
  | noDigits => "cannot parse integer from empty string"
  | invalidDigit => "invalid digit found in string"
  | tooLarge => "number too large to fit in target type"

/-- What is wrong with the entities of a raw text; offsets are into that text. -/
inductive EntityFault where
  | unterminated (start stop : Nat)
  | unknown (start stop : Nat) (name : String)
  | reference (fault : ReferenceFault)
  deriving DecidableEq

/-- The wording of an entity fault. -/
def EntityFault.message : EntityFault → String
  | unterminated start stop =>
    "Error while escaping character at range " ++ toString start ++ ".." ++ toString stop
      ++ ": Cannot find ';' after '&'"
  | unknown start stop name =>
    "at " ++ toString start ++ ".." ++ toString stop ++ ": unrecognized entity `" ++ name ++ "`"
  | reference fault => "invalid character reference: " ++ fault.message

/-- What is wrong with the attributes of a tag; places count bytes from the start of its name. -/
inductive AttributeFault where
  | keyWithoutEquals (place : Nat)
  | missingValue (place : Nat)
  | unquotedValue (place : Nat)
  | unclosedValue (place : Nat) (quote : Char)
  | duplicated (place previous : Nat)
  deriving DecidableEq

/-- The wording of an attribute fault. -/
def AttributeFault.message : AttributeFault → String
  | keyWithoutEquals place =>
    "position " ++ toString place ++ ": attribute key must be directly followed by `=` or space"
  | missingValue place =>
    "position " ++ toString place ++ ": `=` must be followed by an attribute value"
  | unquotedValue place =>
    "position " ++ toString place ++ ": attribute value must be enclosed in `\"` or `'`"
  | unclosedValue place quote =>
    "position " ++ toString place ++ ": missing closing quote `" ++ String.singleton quote
      ++ "` in attribute value"
  | duplicated place previous =>
    "position " ++ toString place ++ ": duplicated attribute, previous declaration at position "
      ++ toString previous

/-- What is wrong with a document. -/
inductive Fault where
  | unknownMarkup
  | unclosedCdata
  | unclosedComment
  | unclosedDoctype
  | unclosedInstruction
  | unclosedTag
  | namelessDoctype
  | mismatchedEnd (opened found : String)
  | unmatchedEnd (found : String)
  | badAttribute (fault : AttributeFault)
  | badEntity (fault : EntityFault)
  | unexpectedEnd
  | secondRoot (name : String)
  | textOutsideRoot
  | unclosedElement (name : String)
  | noRoot
  deriving DecidableEq

/-- The wording of a fault. -/
def Fault.message : Fault → String
  | unknownMarkup => "syntax error: unknown or missed symbol in markup"
  | unclosedCdata => "syntax error: CDATA not closed: `]]>` not found before end of input"
  | unclosedComment => "syntax error: comment not closed: `-->` not found before end of input"
  | unclosedDoctype => "syntax error: DOCTYPE not closed: `>` not found before end of input"
  | unclosedInstruction =>
    "syntax error: processing instruction or xml declaration not closed: `?>` not found before "
      ++ "end of input"
  | unclosedTag => "syntax error: tag not closed: `>` not found before end of input"
  | namelessDoctype =>
    "ill-formed document: `<!DOCTYPE>` declaration does not contain a name of a document type"
  | mismatchedEnd opened found =>
    "ill-formed document: expected `</" ++ opened ++ ">`, but `</" ++ found ++ ">` was found"
  | unmatchedEnd found =>
    "ill-formed document: close tag `</" ++ found ++ ">` does not match any open tag"
  | badAttribute fault => fault.message
  | badEntity fault => fault.message
  | unexpectedEnd => "unexpected end tag"
  | secondRoot name => "multiple root elements: <" ++ name ++ ">"
  | textOutsideRoot => "text outside of the root element"
  | unclosedElement name => "unclosed element <" ++ name ++ ">"
  | noRoot => "document has no root element"

/-- A fault at a byte offset of the document. -/
structure ParseError where
  position : Nat
  fault : Fault
  deriving DecidableEq

/-- A message with its byte offset. -/
def messageAt (position : Nat) (message : String) : String :=
  "Parse error at byte " ++ toString position ++ ": " ++ message

/-- The full message. -/
def ParseError.message (e : ParseError) : String := messageAt e.position e.fault.message

end Transclude.Markup
