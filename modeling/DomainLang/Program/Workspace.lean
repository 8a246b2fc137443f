import DomainLang.Diagnostic.Report
import DomainLang.Program.Basic
import DomainLang.Program.Registry
import DomainLang.Program.Walk

/-!
# Workspaces

A workspace is everything that one compilation reads and writes. A `Phase` is a
step of it that may end in a fault; the workspace survives a fault, with the
walk and the depth of expansion as they were before the step.
-/

namespace DomainLang

/-- What the analyses may be told. -/
structure Options where
  /-- Whether to infer the properties of temporal classifiers. -/
  temporalProperties : Bool := true
  /-- Whether to infer version and conflict clauses. -/
  serviceCriteria : Bool := true
  /-- How deep expansions may nest. -/
  maxExpansionDepth : Nat := 8
  /-- Whether to warn about private properties that nothing refers to. -/
  reportUnreferencedPrivate : Bool := true
  deriving DecidableEq, Repr, Inhabited

/-- All that one compilation reads and writes. -/
structure Workspace where
  options : Options
  /-- The source files, then fragments in the order of expansion. -/
  units : List CompilationUnit
  program : Program := {}
  registry : Registry := {}
  report : Report := {}
  walk : Walk := {}
  expansionDepth : Nat := 0
  deriving Repr, Inhabited

/-- A step of a compilation. -/
abbrev Phase := ExceptT Fault (StateM Workspace)

namespace Workspace

def unit? (workspace : Workspace) (id : UnitId) : Option CompilationUnit :=
  workspace.units.find? (·.id = id)

/-- The ids of the source files. -/
def sourceUnits (workspace : Workspace) : List UnitId :=
  (workspace.units.filter (!·.isExpansion)).map (·.id)

/-- An id above all ids in use. -/
def nextUnit (workspace : Workspace) : UnitId :=
  ⟨(workspace.units.map (·.id.value + 1)).foldl max 0⟩

def modifyProgram (workspace : Workspace) (change : Program → Program) : Workspace :=
  { workspace with program := change workspace.program }

/-- Report findings in order. -/
def reportFindings (workspace : Workspace) (findings : List Finding) : Workspace :=
  { workspace with report := workspace.report.addFindings findings }

end Workspace

namespace Phase

variable {α : Type}

/-- Run a step on a workspace. -/
def perform (phase : Phase α) (workspace : Workspace) : Except Fault α × Workspace :=
  phase.run workspace

/-- Change the registry. -/
def updateRegistry (change : Registry → Except Fault Unit × Registry) : Phase Unit :=
  ExceptT.mk fun workspace =>
    let (result, registry) := change workspace.registry
    (result, { workspace with registry })

/-- Close a scope after a step; a scope that cannot be closed hides the outcome
of the step. -/
def closing (frame : Frame) (result : Except Fault α) (workspace : Workspace) :
    Except Fault α × Workspace :=
  match workspace.walk.exit frame with
  | (.error fault, walk) => (.error fault, { workspace with walk })
  | (.ok (), walk) => (result, { workspace with walk })

/-- Run a step inside a scope. -/
def inFrame (frame : Frame) (body : Phase α) : Phase α :=
  ExceptT.mk fun workspace =>
    match workspace.walk.enter frame with
    | (.error fault, walk) => (.error fault, { workspace with walk })
    | (.ok (), walk) =>
      let (result, after) := body.perform { workspace with walk }
      closing frame result after

/-- Merge a fragment inside its own scope, on an empty walk and one level deeper,
and keep it as a unit when that succeeds. -/
def expand (unit : CompilationUnit) (merge : Phase Unit) : Phase UnitId :=
  ExceptT.mk fun workspace =>
    let bound := workspace.options.maxExpansionDepth
    if bound ≤ workspace.expansionDepth then (.error (.expansionTooDeep bound), workspace)
    else
      let inner := { workspace with
        walk := {}
        expansionDepth := workspace.expansionDepth + 1 }
      let (result, after) := (inFrame (.unit unit.id) merge).perform inner
      let restored := { after with
        walk := workspace.walk
        expansionDepth := after.expansionDepth - 1 }
      match result with
      | .error fault => (.error fault, restored)
      | .ok _ => (.ok unit.id, { restored with units := restored.units ++ [unit] })

end Phase
end DomainLang
