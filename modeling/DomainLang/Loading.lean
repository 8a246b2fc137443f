import DomainLang.Compiler
import DomainLang.Configuration.Reading
import DomainLang.FileTree

/-!
# Loading source files

The source files of a directory are the files below it whose names have the
configured suffix. Each holds a tree as JSON. A file of the same stem that ends in
`.klass` holds the text that the tree was made from, for messages that show lines.
-/

namespace DomainLang

/-- What can be wrong with the files of a compilation. -/
inductive LoadError where
  | unwalkable (directory : String)
  | unreadable (path : String)
  | malformed (path : String)
  | noSources (directory suffix : String)
  deriving DecidableEq, Repr, Inhabited

/-- Why a directory has no compilation. -/
inductive CompilationError where
  | configuration (error : ConfigurationError)
  | load (error : LoadError)
  | fault (fault : Fault)
  deriving Repr, Inhabited

/-- A file that may hold a source tree. -/
structure SourceCandidate where
  location : Location
  /-- The path as reported in errors. -/
  path : String
  /-- The name from the directory that is compiled. -/
  name : String
  deriving DecidableEq, Repr, Inhabited

namespace SourceCandidate

/-- Whether a file has a name that ends in a suffix and is more than it. -/
def hasSuffix (suffix : String) (candidate : SourceCandidate) : Bool :=
  match candidate.location.getLast? with
  | none => false
  | some name => name.endsWith suffix && suffix.utf8ByteSize < name.utf8ByteSize

/-- Where the text that a tree was made from would be. -/
def companion? (suffix : String) (candidate : SourceCandidate) : Option Location := do
  let name ← candidate.location.getLast?
  let stem := String.ofList (name.toList.take (name.length - suffix.length))
  let companion := candidate.location.dropLast ++ [stem ++ ".klass"]
  if companion = candidate.location then none else some companion

end SourceCandidate

namespace FileTree

/-- The source files that a path leads to, in order. -/
def discover (tree : FileTree) (directory suffix : String) :
    Except LoadError (List SourceCandidate) :=
  match tree.locate? directory with
  | none => .error (.unwalkable (Path.trim directory))
  | some location =>
    let candidates : Option (List SourceCandidate) :=
      if tree.isDirectory location then
        some ((tree.filesBelow location).map fun names =>
          let name := "/".intercalate names
          ⟨location ++ names, Path.trim (Path.join directory name), name⟩)
      else if tree.isFile location then some [⟨location, Path.trim directory, ""⟩]
      else none
    match candidates with
    | none => .error (.unwalkable (Path.trim directory))
    | some candidates =>
      match candidates.filter (SourceCandidate.hasSuffix suffix) with
      | [] => .error (.noSources (Path.trim directory) suffix)
      | found => .ok found

/-- The tree that a source file holds. -/
def sourceTree (files : FileTree) (candidate : SourceCandidate) :
    Except LoadError Syntax.SourceTree :=
  match files.text? candidate.location with
  | none => .error (.unreadable candidate.path)
  | some text =>
    match (Json.parse? text).bind decode with
    | none => .error (.malformed candidate.path)
    | some tree => .ok tree

/-- The text that a source file's tree was made from; empty when it is not known. -/
def companionText (files : FileTree) (suffix : String) (candidate : SourceCandidate) : String :=
  ((candidate.companion? suffix).bind files.text?).getD ""

/-- Read source files in order, up to the first that fails. -/
def loadSources (files : FileTree) (suffix : String) (candidates : List SourceCandidate) :
    Except LoadError SourceSet :=
  candidates.foldlM (fun set candidate => do
    let tree ← files.sourceTree candidate
    return set.add candidate.name (files.companionText suffix candidate) tree) {}

/-- The configuration that a file holds. -/
def readConfiguration (files : FileTree) (path : String) :
    Except ConfigurationError Configuration :=
  match (files.locate? path).bind files.text? with
  | none => .error .unreadable
  | some text => Configuration.read text

/-- The configuration that a directory gives, or the defaults. -/
def configurationOf (files : FileTree) (directory : String) :
    Except ConfigurationError Configuration :=
  let path := Path.join directory "klass.yaml"
  if (files.locate? path).any files.isFile then files.readConfiguration path else .ok {}

/-- Compile the source files of a directory, with the configuration of the directory
unless one is given. -/
def compileDirectory (files : FileTree) (directory : String)
    (given : Option Configuration) : Except CompilationError Compilation := do
  let configuration ← match given with
    | some configuration => pure configuration
    | none => (files.configurationOf directory).mapError .configuration
  let suffix := configuration.sourceSuffix
  let candidates ← (files.discover directory suffix).mapError .load
  let set ← (files.loadSources suffix candidates).mapError .load
  (compileSources set configuration).mapError .fault

end FileTree
end DomainLang
