/-
A system of files, and how a path leads through it.

A path is followed segment by segment: from the root of the system if it has a leading slash, and
otherwise from the directory that the work is done in.  Every segment but the last has to lead into a
directory; an empty segment and `.` stay there, and `..` leads to the directory above, or nowhere else
from the root.  Only a file whose bytes are UTF-8 has a text.  A path that is too long, or has a
segment that is, leads nowhere.

* `FileTree.read` — the text of the file that a path leads to;
* `FileTree.fetcher` — templates from the files below the working directory.

Design notes: places are lists of segments from the root.  Of a system no more is known than every
system has, and the files that were added to it.
-/
import Transclude.Import.Fetch
import Transclude.Text.Bytes
import Transclude.Text.Split

namespace Transclude

/-- Why a file cannot be read. -/
inductive FileError where
  | missing
  | notDirectory
  | isDirectory
  | notText
  /-- The path, or a segment of it, is too long. -/
  | tooLong
  /-- The path has a zero character in it. -/
  | zeroInPath
  /-- Any other failure that the system reports, by its number. -/
  | system (code : Nat) (description : String)
  deriving DecidableEq

namespace FileError

/-- A failure with the number it has for the system. -/
def numbered (description : String) (code : Nat) : String :=
  description ++ " (os error " ++ toString code ++ ")"

/-- The wording of an error. -/
def message : FileError → String
  | missing => numbered "No such file or directory" 2
  | notDirectory => numbered "Not a directory" 20
  | isDirectory => numbered "Is a directory" 21
  | notText => "stream did not contain valid UTF-8"
  | tooLong => numbered "File name too long" 36
  | zeroInPath => "file name contained an unexpected NUL byte"
  | system code description => numbered description code

end FileError

/-- What is at the end of a path. -/
inductive FileTree.Node where
  | file (bytes : ByteArray)
  | directory

/-- The files and directories of a system by their places; directories that lead to others need not be
listed. -/
structure FileTree where
  /-- The working directory. -/
  home : List (List Char)
  entries : List (List (List Char) × FileTree.Node)

namespace FileTree

/-- The text of bytes. -/
def textOf (bytes : ByteArray) : Except FileError String :=
  match String.fromUTF8? bytes with
  | some text => .ok text
  | none => .error .notText

/-- A segment that stays where it is. -/
def stays (segment : List Char) : Bool := segment = [] || segment = ['.']

/-- The segments of a path that do not stay where they are. -/
def segments (path : String) : List (List Char) :=
  (Text.split '/' path.toList).filter (!stays ·)

/-- What every system has: some directories at its root, and the device that is always empty. -/
def commonEntries : List (List (List Char) × Node) :=
  (segments "dev/null", .file ⟨#[]⟩) ::
    ["bin", "dev", "etc", "home", "proc", "root", "tmp", "usr", "var"].map fun name =>
      ([name.toList], .directory)

/-- A system with nothing in its working directory. -/
def emptyAt (home : String) : FileTree :=
  ⟨segments home, (segments home, .directory) :: commonEntries⟩

/-- Adds a file or a directory at a path from the working directory. -/
def insert (tree : FileTree) (path : String) (node : Node) : FileTree :=
  { tree with entries := (tree.home ++ segments path, node) :: tree.entries }

/-- What is at a place. -/
def node? (tree : FileTree) (place : List (List Char)) : Option Node :=
  match tree.entries.lookup place with
  | some node => some node
  | none => if tree.entries.any (fun e => place.isPrefixOf e.1) then some .directory else none

/-- The most bytes that a segment may have. -/
def segmentLimit : Nat := 255

/-- The most bytes that a path may have. -/
def pathLimit : Nat := 4095

/-- The place that a segment leads to from a directory. -/
def enter (tree : FileTree) (place : List (List Char)) (segment : List Char) :
    Except FileError (List (List Char)) :=
  if stays segment then .ok place
  else if segment = ['.', '.'] then .ok place.dropLast
  else if segmentLimit < Text.byteLength segment then .error .tooLong
  else if (tree.node? (place ++ [segment])).isSome then .ok (place ++ [segment])
  else .error .missing

/-- The place that a segment leads to; it has to start from a directory. -/
def follow (tree : FileTree) (place : List (List Char)) (segment : List Char) :
    Except FileError (List (List Char)) :=
  match tree.node? place with
  | some .directory => tree.enter place segment
  | some (.file _) => .error .notDirectory
  | none => .error .missing

/-- Whether a path starts at the root. -/
def isAbsolute (path : String) : Bool := path.startsWith "/"

/-- The place that a path leads to. -/
def walk (tree : FileTree) (path : String) : Except FileError (List (List Char)) :=
  (Text.split '/' path.toList).foldlM tree.follow (if isAbsolute path then [] else tree.home)

/-- The text of the file that a path leads to. -/
def read (tree : FileTree) (path : String) : Except FileError String :=
  if path.toList.contains '\x00' then .error .zeroInPath
  else if pathLimit < Text.byteLength path.toList then .error .tooLong
  else
    match tree.walk path with
    | .error e => .error e
    | .ok place =>
      match tree.node? place with
      | some (.file bytes) => textOf bytes
      | some .directory => .error .isDirectory
      | none => .error .missing

/-- The path from the root to where a path from the working directory leads. -/
def resolve (tree : FileTree) (path : String) : String :=
  if isAbsolute path then path
  else String.join (tree.home.map fun s => "/" ++ String.ofList s) ++ "/" ++ path

end FileTree

/-- Why there is no text at a location that names a file. -/
def FileError.toFetchError (location : String) : FileError → FetchError
  | missing => .notFound location
  | e => .unreadable location e.message

/-- Templates from files; a location is a path from the working directory, read from the root. -/
def FileTree.fetcher (tree : FileTree) : Fetcher := fun location =>
  match tree.read (tree.resolve location) with
  | .ok text => .ok text
  | .error e => .error (e.toFetchError location)

end Transclude
