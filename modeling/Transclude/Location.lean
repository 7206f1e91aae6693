/-
Locations of templates and of the resources they refer to.

A reference in a template is relative to the directory of the template.  After the two are joined,
every named segment directly followed by a parent segment (`..`) is removed together with it, until
none is left; a parent segment at the very end stays, as does one with nothing named before it.

* `collapse` — one pass over the segments with the kept ones as a stack;
* `resolve` — the location that a reference in a template denotes.
-/
import Transclude.Text.Split

namespace Transclude.Location

/-- The segment that leads to the parent. -/
def parent : List Char := ['.', '.']

/-- A segment that a parent segment after it cancels. -/
def isNamed (segment : List Char) : Bool := !segment.isEmpty && segment != parent

/-- The kept segments, last one first, after reading more of them; the last one read never cancels
anything. -/
def collapseFrom : List (List Char) → List (List Char) → List (List Char)
  | kept, [] => kept.reverse
  | kept, [s] => (s :: kept).reverse
  | [], s :: t :: rest => collapseFrom [s] (t :: rest)
  | k :: kept, s :: t :: rest =>
    if s = parent ∧ isNamed k = true then collapseFrom kept (t :: rest)
    else collapseFrom (s :: k :: kept) (t :: rest)

/-- The segments without the pairs of a named segment and a parent segment. -/
def collapse (segments : List (List Char)) : List (List Char) := collapseFrom [] segments

/-- The path with its segments collapsed. -/
def collapsePath (path : List Char) : List Char := Text.join '/' (collapse (Text.split '/' path))

/-- The directory of a location: everything up to its last slash, which is included. -/
def directory (location : List Char) : List Char :=
  (location.reverse.dropWhile (· != '/')).reverse

/-- The directory of a location, as text. -/
def root (location : String) : String := String.ofList (directory location.toList)

/-- The location that `reference` denotes in a template at `base`. -/
def resolve (base reference : String) : String :=
  String.ofList (collapsePath (directory base.toList ++ reference.toList))

end Transclude.Location
