import DomainLang.Association.Join
import DomainLang.Association.Links
import DomainLang.Criteria.Links
import DomainLang.Declaration.TopLevel
import DomainLang.Hierarchy.Links
import DomainLang.Projection.Links
import DomainLang.Rules.Class
import DomainLang.Rules.Criteria
import DomainLang.Rules.Inheritance
import DomainLang.Rules.Naming
import DomainLang.Rules.Projection
import DomainLang.Rules.Property
import DomainLang.Rules.Service
import DomainLang.Rules.Uniqueness
import DomainLang.Service.Links
import DomainLang.Temporal.Inference

/-!
# Analysis

All steps in order: declarations, inheritance and ends, inferred declarations,
then the names in orderings, projections, services and criteria, then joins, and
last everything there is to report. Problems with the program are reported and
never end the analysis.
-/

namespace DomainLang

namespace Rules

/-- The rules that go beyond uniqueness and spelling. -/
def findings (workspace : Workspace) : List Finding :=
  classes workspace.program ++ inheritance workspace ++ properties workspace ++
    criteria workspace.program ++ projections workspace.program ++ services workspace

end Rules

namespace Workspace

/-- Everything there is to report about an analysed program. -/
def findings (workspace : Workspace) : List Finding :=
  Uniqueness.findings workspace ++ Naming.findings workspace ++ Rules.findings workspace

/-- Resolve the names that inferred declarations depend on. -/
def linkDeclarations (workspace : Workspace) : Workspace :=
  workspace.modifyProgram fun program =>
    (program.linkHierarchy workspace.registry).linkAssociations workspace.registry

/-- Resolve all other names and find the joins. -/
def linkReferences (workspace : Workspace) : Workspace :=
  let registry := workspace.registry
  workspace.modifyProgram fun program =>
    let ordered := program.linkOrderings registry
    let projected := ordered.linkProjections registry
    let served := projected.linkServices registry
    (served.linkCriteria registry).classifyJoins

/-- Report all findings. -/
def reportAll (workspace : Workspace) : Workspace :=
  workspace.reportFindings workspace.findings

end Workspace

namespace Phase

/-- Run a step if it is asked for. -/
def optionally (isWanted : Options → Bool) (phase : Phase Unit) : Phase Unit := do
  if isWanted (← get).options then phase else pure ()

/-- The whole analysis. -/
def analyze : Phase Unit := do
  declareUnits
  declareClassifierMembers
  modify Workspace.linkDeclarations
  optionally (·.temporalProperties) inferTemporalProperties
  optionally (·.serviceCriteria) inferServiceCriteria
  modify Workspace.linkReferences
  modify Workspace.reportAll

end Phase
end DomainLang
