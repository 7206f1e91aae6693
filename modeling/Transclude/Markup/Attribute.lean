/-
The attributes of a tag.

After the name of a tag come keys and quoted values.  A key is everything up to the next equals sign
or blank, and at least one character; no blank is needed between two attributes.

* `attributes` — the attributes with their values unescaped, or the first thing wrong with them.
-/
import Transclude.Markup.Entity

namespace Transclude.Markup

/-- The blanks of markup. -/
def isSpace (c : Char) : Bool := c = ' ' || c = '\t' || c = '\n' || c = '\r'

/-- A character that ends a key. -/
def endsKey (c : Char) : Bool := c = '=' || isSpace c

/-- A text and the place in the tag where it begins. -/
structure Place where
  position : Nat
  rest : List Char

namespace Place

/-- The place after the characters that satisfy `p`, and these characters. -/
def skip (p : Char → Bool) (s : Place) : List Char × Place :=
  let taken := s.rest.takeWhile p
  (taken, ⟨s.position + Text.byteLength taken, s.rest.dropWhile p⟩)

/-- The next place that is not blank. -/
def skipSpace (s : Place) : Place := (s.skip isSpace).2

/-- The place after one character. -/
def next (s : Place) : Place :=
  match s.rest with
  | [] => s
  | c :: cs => ⟨s.position + c.utf8Size, cs⟩

end Place

/-- A quoted value, and the place after it. -/
def attributeValue (s : Place) : Except Fault (List Char × Place) :=
  match s.rest with
  | [] => .error (.badAttribute (.missingValue s.position))
  | q :: _ =>
    if q = '"' ∨ q = '\'' then
      let (raw, s) := s.next.skip (· != q)
      match s.rest with
      | [] => .error (.badAttribute (.unclosedValue s.position q))
      | _ =>
        match unescape raw with
        | .error e => .error (.badEntity e)
        | .ok value => .ok (value, s.next)
    else .error (.badAttribute (.unquotedValue s.position))

/-- The attributes from a place on; `keys` are those before it with their places, and `fuel` bounds
their number. -/
def attributesFrom : Nat → List (List Char × Nat) → Place → Except Fault (List (String × String))
  | 0, _, _ => .ok []
  | fuel + 1, keys, s =>
    let s := s.skipSpace
    match s.rest with
    | [] => .ok []
    | c :: _ =>
      let (more, afterKey) := s.next.skip (fun c => !endsKey c)
      let key := c :: more
      let equals := afterKey.skipSpace
      match equals.rest with
      | '=' :: _ =>
        match keys.find? (fun k => k.1 == key) with
        | some (_, previous) => .error (.badAttribute (.duplicated s.position previous))
        | none =>
          match attributeValue equals.next.skipSpace with
          | .error e => .error e
          | .ok (value, s') =>
            match attributesFrom fuel ((key, s.position) :: keys) s' with
            | .error e => .error e
            | .ok rest => .ok ((String.ofList key, String.ofList value) :: rest)
      | _ => .error (.badAttribute (.keyWithoutEquals equals.position))

/-- The attributes that follow the name of a tag, which ends at byte `position`. -/
def attributes (position : Nat) (rest : List Char) : Except Fault (List (String × String)) :=
  attributesFrom (rest.length + 1) [] ⟨position, rest⟩

end Transclude.Markup
