import DomainLang.CommandLine

/-!
# The program

Reads the files that a request is about, runs the command on them, and writes and
prints what it gives.
-/

namespace DomainLang

/-- How deep directories are read. -/
def maxDirectoryLevels : Nat := 255

/-- Add what is at a path, and what is below it when it is a directory. Links are left
out. -/
def FileTree.addFrom : (levels : Nat) → (files : FileTree) → (path : String) → IO FileTree
  | 0, files, _ => return files
  | levels + 1, files, path => do
    let place ← IO.FS.realPath path
    match (← place.metadata).type with
    | .dir =>
      (← place.readDir).foldlM (fun files entry => do
        match (← entry.path.symlinkMetadata).type with
        | .symlink => return files
        | _ => FileTree.addFrom levels files (Path.join path entry.fileName))
        (files.insert (Path.location path) .directory)
    | .file =>
      let bytes ← IO.FS.readBinFile path
      return files.insert (Path.location path) (.file (String.fromUTF8? bytes))
    | _ => return files

/-- Add what is at a path, if it can be read. -/
def FileTree.addIfReadable (files : FileTree) (path : String) : IO FileTree := do
  try FileTree.addFrom maxDirectoryLevels files path catch _ => return files

/-- A path from the top of the file system, if there is something at it. -/
def realPath (path : String) : IO String := do
  try return (← IO.FS.realPath path).toString catch _ => return path

/-- A request with paths from the top of the file system. -/
def Invocation.absolute (invocation : Invocation) : IO Invocation :=
  return { invocation with
    directory := ← realPath invocation.directory
    configuration := ← invocation.configuration.mapM realPath }

/-- Run a request on the files it is about. -/
def Invocation.perform (invocation : Invocation) : IO CommandOutcome := do
  let invocation ← invocation.absolute
  let files ← FileTree.addIfReadable {} invocation.directory
  let files ← match invocation.configuration with
    | none => pure files
    | some path => files.addIfReadable path
  return invocation.run files

/-- Write the file that an outcome gives; the status says whether that worked. -/
def CommandOutcome.write (outcome : CommandOutcome) : IO UInt32 := do
  match outcome.written with
  | none => return outcome.status.toUInt32
  | some (path, text) =>
    try
      IO.FS.writeFile path text
      return outcome.status.toUInt32
    catch _ => return 1

end DomainLang

/-- Compile a directory as the arguments ask. -/
def main (arguments : List String) : IO UInt32 := do
  let outcome ← match DomainLang.Request.ofArguments arguments with
    | .check invocation => invocation.perform
    | .help | .misuse => pure (DomainLang.CommandOutcome.ofArguments {} arguments)
  IO.print outcome.output
  IO.eprint outcome.errors
  outcome.write
