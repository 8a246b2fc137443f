import DomainLang.Json.Writer
import DomainLang.Loading

/-!
# The command line

The command compiles a directory, prints its diagnostics and may write the model to
a file. It is a function of its arguments and of the files it can see.
-/

namespace DomainLang

/-- What the command is asked to do. -/
structure Invocation where
  directory : String
  configuration : Option String := none
  /-- Where to write the model. -/
  modelFile : Option String := none
  deriving DecidableEq, Repr, Inhabited

/-- What arguments mean. -/
inductive Request where
  | check (invocation : Invocation)
  | help
  | misuse
  deriving DecidableEq, Repr, Inhabited

/-- What the command did. -/
structure CommandOutcome where
  status : Nat
  output : String := ""
  errors : String := ""
  /-- The file to write and its text. -/
  written : Option (String × String) := none
  deriving DecidableEq, Repr, Inhabited

/-- Arguments that were understood so far. -/
structure PartialInvocation where
  directory : Option String := none
  configuration : Option String := none
  modelFile : Option String := none
  deriving DecidableEq, Repr, Inhabited

/-- The options that take a value. -/
inductive ValueOption where
  | configuration
  | modelFile
  deriving DecidableEq, Repr, Inhabited

namespace ValueOption

/-- The option that a word names. -/
def ofWord? : String → Option ValueOption
  | "--config" => some configuration
  | "--emit-model" => some modelFile
  | _ => none

end ValueOption

namespace PartialInvocation

/-- Take the directory, which is given once and is not empty. -/
def withDirectory? (invocation : PartialInvocation) (directory : String) :
    Option PartialInvocation :=
  if directory.isEmpty || invocation.directory.isSome then none
  else some { invocation with directory := some directory }

/-- Take the value of an option, which is given at most once and is not empty. -/
def withValue? (invocation : PartialInvocation) (option : ValueOption) (value : String) :
    Option PartialInvocation :=
  if value.isEmpty then none
  else match option with
    | .configuration =>
      if invocation.configuration.isSome then none
      else some { invocation with configuration := some value }
    | .modelFile =>
      if invocation.modelFile.isSome then none
      else some { invocation with modelFile := some value }

/-- What the command is asked once all arguments are read. -/
def finished (invocation : PartialInvocation) : Request :=
  match invocation.directory with
  | none => .misuse
  | some directory => .check ⟨directory, invocation.configuration, invocation.modelFile⟩

end PartialInvocation

namespace Request

/-- Whether an argument looks like an option rather than a value. -/
def isOption (argument : String) : Bool :=
  argument.startsWith "-" && argument ≠ "-"

/-- Read arguments after the end of the options. -/
def ofOperands (invocation : PartialInvocation) : List String → Request
  | [] => invocation.finished
  | argument :: rest =>
    match invocation.withDirectory? argument with
    | none => misuse
    | some invocation => ofOperands invocation rest

/-- Read arguments in order. -/
def read (invocation : PartialInvocation) : List String → Request
  | [] => invocation.finished
  | argument :: rest =>
    if argument == "--" then ofOperands invocation rest
    else if argument == "--help" || argument.startsWith "-h" then help
    else if isOption argument then
      match ValueOption.ofWord? argument, rest with
      | some option, value :: rest =>
        if isOption value then misuse
        else match invocation.withValue? option value with
          | none => misuse
          | some invocation => read invocation rest
      | some _, [] => misuse
      | none, rest =>
        let (word, value) := Text.cutFirst '=' argument
        match (ValueOption.ofWord? word).bind fun option => invocation.withValue? option value with
        | none => misuse
        | some invocation => read invocation rest
    else match invocation.withDirectory? argument with
      | none => misuse
      | some invocation => read invocation rest

/-- What arguments mean. -/
def ofArguments (arguments : List String) : Request :=
  read {} arguments

/-- How to call the command. -/
def usage : String :=
  "Usage: klass-check [OPTIONS] <DIR>"

/-- The text that explains the command. -/
def helpText : String :=
  "\n".intercalate [
    "Compile a Klass model and report diagnostics",
    "",
    usage,
    "",
    "Arguments:",
    "  <DIR>  Directory holding `*.klass.json` source trees",
    "",
    "Options:",
    "      --config <CONFIG>          Compiler configuration " ++
      "(defaults to `<dir>/klass.yaml` when present)",
    "      --emit-model <EMIT_MODEL>  Write the compiled model as JSON to this file",
    "  -h, --help                     Print help",
    ""]

end Request

namespace Invocation

/-- The compilation that is asked for; none when the directory or the files do not
allow one. -/
def compilation? (invocation : Invocation) (files : FileTree) : Option Compilation := do
  let location ← files.locate? invocation.directory
  guard (files.isDirectory location)
  let configuration ← invocation.configuration.mapM fun path =>
    (files.readConfiguration path).toOption
  (files.compileDirectory invocation.directory configuration).toOption

/-- Compile, print diagnostics, and give the model's text when it is to be written. -/
def run (invocation : Invocation) (files : FileTree) : CommandOutcome :=
  match invocation.compilation? files with
  | none => { status := 1 }
  | some compilation =>
    let errors := if compilation.diagnostics.isEmpty then "" else compilation.rendered ++ "\n"
    match compilation.hasErrors, compilation.model with
    | false, some model =>
      { status := 0, errors
        written := invocation.modelFile.map fun path => (path, Json.pretty model.toJson) }
    | _, _ => { status := 1, errors }

end Invocation

namespace CommandOutcome

/-- The outcome of arguments, before anything is written. -/
def ofArguments (files : FileTree) (arguments : List String) : CommandOutcome :=
  match Request.ofArguments arguments with
  | .misuse => { status := 2, errors := Request.usage ++ "\n" }
  | .help => { status := 0, output := Request.helpText }
  | .check invocation => invocation.run files

/-- The outcome and the files after writing; writing that fails is a failure of the
command. -/
def applied (outcome : CommandOutcome) (files : FileTree) : CommandOutcome × FileTree :=
  match outcome.written with
  | none => (outcome, files)
  | some (path, text) =>
    match files.write? path text with
    | none => ({ outcome with status := 1 }, files)
    | some files => (outcome, files)

end CommandOutcome
end DomainLang
