import DomainLang.Text.Pieces

/-!
# File trees

The part of a file system that a compilation can see, as a value: directories, and
files whose contents are texts when they are UTF-8. A location is the list of names
from the top; a path is what a user writes, with separators and dots.
-/

namespace DomainLang

/-- Where a file or a directory is: the names from the top. -/
abbrev Location := List String

/-- What is at a location. -/
inductive FileEntry where
  | directory
  /-- A file, with its text when its bytes are one. -/
  | file (text : Option String)
  deriving DecidableEq, Repr, Inhabited

/-- Entries by location. The directories above an entry are implied. -/
structure FileTree where
  entries : List (Location × FileEntry) := []
  deriving Repr, Inhabited

namespace Path

/-- Whether a piece of a path names nothing of its own. -/
def isTrivial (piece : String) : Bool :=
  piece == "" || piece == "."

/-- A path inside a directory. -/
def join (directory name : String) : String :=
  if directory.isEmpty || directory.endsWith "/" then directory ++ name
  else directory ++ "/" ++ name

/-- A path without pieces at its ends that name nothing. -/
def trim (path : String) : String :=
  let kept := (Text.pieces '/' path).dropWhile isTrivial
  "/".intercalate (kept.reverse.dropWhile isTrivial).reverse

/-- Where a path starts: at the name `/` when it is from the top of the file system. -/
def start (path : String) : Location :=
  if path.startsWith "/" then ["/"] else []

/-- The location that a path spells out. -/
def location (path : String) : Location :=
  start path ++ (Text.pieces '/' path).filter fun piece => !isTrivial piece

end Path

namespace FileTree

/-- What was put at a location. -/
def lookup? (tree : FileTree) (location : Location) : Option FileEntry :=
  (tree.entries.find? fun (place, _) => place == location).map (·.2)

/-- Whether there is a directory; the top is one. -/
def isDirectory (tree : FileTree) (location : Location) : Bool :=
  location.isEmpty || tree.entries.any fun (place, entry) =>
    location.isPrefixOf place && (place ≠ location || entry == .directory)

/-- Whether there is a file. -/
def isFile (tree : FileTree) (location : Location) : Bool :=
  match tree.lookup? location with
  | some (.file _) => true
  | _ => false

def text? (tree : FileTree) (location : Location) : Option String :=
  match tree.lookup? location with
  | some (.file text) => text
  | _ => none

/-- Put an entry at a location, in place of what was there. -/
def insert (tree : FileTree) (location : Location) (entry : FileEntry) : FileTree :=
  ⟨(location, entry) :: tree.entries.filter fun (place, _) => place ≠ location⟩

/-- One step of a path: only a directory can be stepped through. -/
def step (tree : FileTree) (location : Location) (piece : String) : Option Location :=
  if !tree.isDirectory location then none
  else if Path.isTrivial piece then some location
  else if piece == ".." then
    match location with
    | [] => none
    | _ :: _ => some location.dropLast
  else some (location ++ [piece])

/-- The location that a path leads to, whether or not something is there. -/
def locate? (tree : FileTree) (path : String) : Option Location :=
  (Text.pieces '/' path).foldlM tree.step (Path.start path)

/-- The files below a location with their names from it, in the order of the names
compared one by one. -/
def filesBelow (tree : FileTree) (location : Location) : List Location :=
  let below := tree.entries.filterMap fun (place, entry) =>
    match entry with
    | .file _ =>
      if location.isPrefixOf place then some (place.drop location.length) else none
    | .directory => none
  below.mergeSort fun left right => !right.lex left

/-- The tree after a text is written to a file, whose directory must exist. -/
def write? (tree : FileTree) (path text : String) : Option FileTree := do
  let location ← tree.locate? path
  if tree.isDirectory location || !tree.isDirectory location.dropLast then none
  else some (tree.insert location (.file (some text)))

end FileTree
end DomainLang
