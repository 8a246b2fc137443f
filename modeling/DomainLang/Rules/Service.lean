import DomainLang.Hierarchy.Lineage
import DomainLang.Rules.Inheritance

/-!
# Rules for services

A service group is on a class that is declared before it in its file and has at
least one url. The clauses of a service are among those its verb allows, and its
projection is on the class of the group or a supertype.
-/

namespace DomainLang.Rules

open Resolved (ServiceGroup Service)

def groupClass (workspace : Workspace) (group : ServiceGroup) : List Finding :=
  let header := group.header
  match group.klass with
  | some .notFound =>
    let problem := match workspace.registry.resolve group.className.name with
      | .resolved other =>
        Problem.serviceOnOther header.name.name group.className.name other.kindName
      | .ambiguous | .notFound => .serviceOnUnknown header.name.name group.className.name
    [⟨problem, header.unit, group.className.span⟩]
  | some (.resolved klass) =>
    let referenced := (workspace.program.classes.get klass).header
    if isForward header referenced then
      [⟨.forwardServiceClass header.name.name referenced.name.name, header.unit,
        group.className.span⟩]
    else []
  | some .ambiguous | none => []

/-- A group without urls. -/
def emptyGroup (group : ServiceGroup) : List Finding :=
  if group.urls.isEmpty then
    [⟨.emptyServiceGroup group.header.name.name, group.header.unit, group.header.name.span⟩]
  else []

/-- The clauses of a service that its verb does not allow. -/
def clausesNotAllowed (service : Service) : List Finding :=
  let verb := service.declaration.verb
  (service.clauses.filter (·.kind ∉ verb.allowedClauses)).map fun clause =>
    ⟨.clauseNotAllowed verb clause.kind, clause.unit, clause.declaration.keywordSpan⟩

def serviceProjection (program : Program) (group : ServiceGroup) (service : Service) :
    List Finding :=
  match service.declaration.projection, service.projection with
  | some name, some .notFound =>
    [⟨.unknownServiceProjection name.name, service.context.unit, name.span⟩]
  | some name, some (.resolved index) =>
    match group.klass, (program.projections.get index).classifier with
    | some (.resolved klass), some (.resolved projected) =>
      if program.conforms (.klass klass) projected then []
      else
        [⟨.serviceProjectionMismatch name.name (program.classifier projected).name
          group.className.name, service.context.unit, name.span⟩]
    | _, _ => []
  | _, _ => []

def groupRules (workspace : Workspace) (group : ServiceGroup) : List Finding :=
  let program := workspace.program
  groupClass workspace group ++ emptyGroup group ++
    (group.urls.map program.urls.get).flatMap fun url =>
      (url.services.map program.services.get).flatMap fun service =>
        clausesNotAllowed service ++ serviceProjection program group service

/-- The rules for every service group. -/
def services (workspace : Workspace) : List Finding :=
  workspace.program.serviceGroups.records.flatMap (groupRules workspace)

end DomainLang.Rules
