import DomainLang.Declaration.Members
import DomainLang.Hierarchy.Lineage
import DomainLang.Syntax.Build

/-!
# Inferring version and conflict clauses

A service of a versioned class whose url takes a version answers for that
version only: reading selects the version that was valid then, and writing
refuses to overwrite a newer one. A clause that is written is never replaced.
-/

namespace DomainLang

namespace Service

/-- The name of the parameter that carries a version. -/
def versionParameter : String := "version"

/-- The clause that services with a verb need, given the name of the version end. -/
def versionClause (verb : Verb) (versionEnd : String) : Option Syntax.Clause :=
  let sameNumber := Syntax.Criteria.equal (.this (versionEnd ++ ".number"))
    (.named versionParameter)
  match verb with
  | .get => some (.bare .version (.both (.atEdge "system") sameNumber))
  | .put | .patch | .delete => some (.bare .conflict sameNumber)
  | .post => none

/-- Whether a url has the version parameter. -/
def takesVersion (program : Program) (url : Resolved.Url) : Bool :=
  url.parameters.any fun parameter =>
    (program.parameters.get parameter).name.name = versionParameter

/-- The first version end of a class, inherited ones included. -/
def versionEnd? (program : Program) (klass : ClassIndex) : Option AssociationEndIndex :=
  (program.allAssociationEnds klass).find? fun associationEnd =>
    (program.associationEnds.get associationEnd).has .version

/-- The name of the class that a service is about. -/
def className (program : Program) (service : Resolved.Service) : Syntax.Identifier :=
  (program.serviceGroups.get (program.urls.get service.url).group).className

/-- The clause that a service needs and does not have. -/
def missingClause? (registry : Registry) (program : Program) (service : Resolved.Service) :
    Option Syntax.Clause := do
  let klass ← (registry.classes.find (className program service).name).value?
  let versionEnd ← versionEnd? program klass
  let clause ← versionClause service.declaration.verb (program.endName versionEnd)
  if takesVersion program (program.urls.get service.url) && !service.hasClause clause.kind then
    some clause
  else none

end Service

namespace Phase

/-- Add the missing clause of one service. -/
def inferServiceCriteriaOf (index : ServiceIndex) : Phase Unit := do
  let workspace ← get
  let service := workspace.program.services.get index
  match Service.missingClause? workspace.registry workspace.program service with
  | none => pure ()
  | some clause =>
    expandDeclaration .serviceCriteria service.context service.declaration.span
      (.clauses index [clause])

/-- Add the missing clauses of every service. -/
def inferServiceCriteria : Phase Unit := do
  (← get).program.services.indices.forM inferServiceCriteriaOf

end Phase
end DomainLang
