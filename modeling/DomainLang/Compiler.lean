import DomainLang.Analysis
import DomainLang.Assembly.Records
import DomainLang.Configuration
import DomainLang.Diagnostic.Rendering

/-!
# Compiling

Named trees are compiled to a model and diagnostics. The model is there exactly
when no diagnostic is an error.
-/

namespace DomainLang

/-- Source files as units, and the map that their spans point into. -/
structure SourceSet where
  units : List CompilationUnit := []
  sources : SourceMap := {}
  deriving Repr, Inhabited

/-- The outcome of a compilation. -/
structure Compilation where
  model : Option DomainModel
  /-- In source order. -/
  diagnostics : List Diagnostic
  /-- The source files, then fragments in the order of expansion. -/
  units : List CompilationUnit
  sources : SourceMap
  deriving Repr, Inhabited

namespace SourceSet

/-- Add a source file, whose text may be empty when only its tree is known. -/
def add (set : SourceSet) (name text : String) (tree : Syntax.SourceTree) : SourceSet where
  units := set.units ++
    [.ofTree ⟨set.units.length⟩ name (tree.numbered (.retarget set.sources.nextFileId))]
  sources := set.sources.add ⟨name, text⟩

/-- Source files of which only the trees are known. -/
def ofTrees (trees : List (String × Syntax.SourceTree)) : SourceSet :=
  trees.foldl (fun set (name, tree) => set.add name "" tree) {}

end SourceSet

namespace Compilation

/-- Whether there is an error. -/
def hasErrors (compilation : Compilation) : Bool :=
  compilation.diagnostics.any Diagnostic.isError

/-- The numbers of errors and warnings on one line. -/
def summary (compilation : Compilation) : String :=
  let count := fun severity => toString (compilation.diagnostics.countP (·.severity = severity))
  count .error ++ " error(s), " ++ count .warning ++ " warning(s)"

/-- The diagnostics with source lines. -/
def rendered (compilation : Compilation) : String :=
  Diagnostic.renderAll compilation.sources compilation.diagnostics

/-- The outcome when warnings count as errors. -/
def promoteWarnings (compilation : Compilation) : Compilation :=
  { compilation with
    diagnostics := compilation.diagnostics.map fun diagnostic =>
      if diagnostic.severity = .warning then { diagnostic with severity := .error }
      else diagnostic
    model :=
      if compilation.diagnostics.any (·.severity = .warning) then none else compilation.model }

end Compilation

/-- Analyse units and assemble a model when there is no error. -/
def compileUnits (set : SourceSet) (options : Options) : Except Fault Compilation := do
  let (result, analysed) := Phase.analyze.perform { options, units := set.units }
  result
  let model ←
    if analysed.report.hasErrors then pure none
    else some <$> Assembly.model analysed.program
  return { model, diagnostics := analysed.report.sorted, units := analysed.units
           sources := set.sources }

/-- Compile a set of source files. -/
def compileSources (set : SourceSet) (configuration : Configuration) :
    Except Fault Compilation := do
  let compilation ← compileUnits set configuration.options
  return if configuration.warningsAsErrors then compilation.promoteWarnings else compilation

/-- Compile named trees. -/
def compile (trees : List (String × Syntax.SourceTree)) (configuration : Configuration) :
    Except Fault Compilation :=
  compileSources (.ofTrees trees) configuration

end DomainLang
