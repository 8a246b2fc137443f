import DomainLang.Collection.Repetition
import DomainLang.Program.Workspace

/-!
# Uniqueness

Names, modifiers, validations, urls, parameters and clauses that must be unique
within their group. Every occurrence of a repeated key is a finding of its own.
-/

namespace DomainLang.Uniqueness

open Syntax (Identifier ModifierMark)
open Resolved (ProjectionElement)

/-- Declarations that share their name with another one, of any kind. -/
def topLevelNames (workspace : Workspace) : List Finding :=
  let program := workspace.program
  (program.topLevel.filter fun index =>
    (workspace.registry.resolve (program.header index).name.name).isAmbiguous).map fun index =>
      let header := program.header index
      ⟨.duplicateTopLevel header.name.name index.kindName, header.unit, header.name.span⟩

/-- User classes, when there is more than one. -/
def userClasses (program : Program) : List Finding :=
  let users := program.classes.records.filter (·.isUser)
  if users.length < 2 then []
  else users.map fun user =>
    ⟨.duplicateUser user.name, user.header.unit, user.header.name.span⟩

/-- Modifiers written more than once on `owner`. -/
def modifiers (unit : UnitId) (owner : String) (marks : List ModifierMark) : List Finding :=
  (repeated (·.modifier) marks).map fun mark =>
    ⟨.duplicateModifier mark.modifier owner, unit, mark.span⟩

/-- The names of the members of a classifier with their units: properties, end
signatures and, for a class, the ends it owns. -/
def memberNames (program : Program) (index : ClassifierIndex) : List (UnitId × Identifier) :=
  let classifier := program.classifier index
  let properties := classifier.properties.map fun property =>
    let record := program.properties.get property
    (record.context.unit, record.name)
  let signatures := classifier.endSignatures.map fun signature =>
    let record := program.endSignatures.get signature
    (record.context.unit, record.name)
  let ends := match index with
    | .interface _ => []
    | .klass klass => (program.classes.get klass).associationEnds.map fun associationEnd =>
      let record := program.associationEnds.get associationEnd
      (record.context.unit, record.name)
  properties ++ signatures ++ ends

/-- Members of a classifier that share a name. -/
def members (program : Program) (index : ClassifierIndex) : List Finding :=
  (repeated (·.2.name) (memberNames program index)).map fun (unit, name) =>
    ⟨.duplicateMember (program.classifier index).name name.name, unit, name.span⟩

/-- Interfaces that a classifier names more than once. -/
def interfaces (classifier : Resolved.Classifier) : List Finding :=
  (repeated (·.name) classifier.declaredInterfaces).map fun name =>
    ⟨.duplicateInterface name.name classifier.name, classifier.header.unit, name.span⟩

/-- Declared properties with a modifier that at most one of them may have. -/
def markedProperties (program : Program) (classifier : Resolved.Classifier)
    (modifier : Modifier) : List Finding :=
  let marked := (classifier.properties.map program.properties.get).filter (·.has modifier)
  if marked.length < 2 then []
  else marked.map fun property =>
    ⟨.multipleMarked modifier classifier.name property.name.name, property.context.unit,
      property.name.span⟩

/-- Version members of a class, where there is more than one of a sort. -/
def versionMembers (program : Program) (klass : Resolved.Class) : List Finding :=
  let properties := ((klass.properties.map program.properties.get).filter (·.has .version)).map
    fun property => (property.context.unit, property.name)
  let endsWith := fun modifier =>
    ((klass.associationEnds.map program.associationEnds.get).filter (·.has modifier)).map
      fun associationEnd => (associationEnd.context.unit, associationEnd.name)
  ([properties, endsWith .version, endsWith .versioned].filter (1 < ·.length)).flatMap fun sort =>
    sort.map fun (unit, name) =>
      ⟨.multipleVersions klass.name name.name, unit, name.span⟩

/-- Everything about one classifier. -/
def classifier (program : Program) (index : ClassifierIndex) : List Finding :=
  let record := program.classifier index
  members program index ++ modifiers record.header.unit record.name record.modifiers ++
    interfaces record ++
    [Modifier.id, .createdBy, .lastUpdatedBy].flatMap (markedProperties program record) ++
    match index with
    | .interface _ => []
    | .klass klass => versionMembers program (program.classes.get klass)

/-- Modifiers and validations of one property. -/
def property (record : Resolved.Property) : List Finding :=
  modifiers record.context.unit record.name.name record.declaration.modifiers ++
    (repeated (·.kind) record.declaration.validations).map fun validation =>
      ⟨.duplicateValidation validation.kind record.name.name, record.context.unit,
        validation.span⟩

/-- Modifiers and validations of members and association ends. -/
def memberDetails (program : Program) : List Finding :=
  program.properties.records.flatMap property ++
    program.endSignatures.records.flatMap (fun signature =>
      modifiers signature.context.unit signature.name.name signature.declaration.modifiers) ++
    program.associationEnds.records.flatMap fun associationEnd =>
      modifiers associationEnd.context.unit associationEnd.name.name
        associationEnd.declaration.modifiers

/-- Literals of an enumeration that share a name or a pretty name. -/
def literals (enumeration : Resolved.Enumeration) : List Finding :=
  let names := enumeration.literals.map fun literal => (literal.name.name, literal.name.span)
  let prettyNames := enumeration.literals.filterMap fun literal =>
    literal.prettyName.map fun pretty => (pretty, literal.span)
  (repeated (·.1) names ++ repeated (·.1) prettyNames).map fun (name, span) =>
    ⟨.duplicateLiteral enumeration.header.name.name name, enumeration.header.unit, span⟩

/-- Service groups on the same class. -/
def groupClasses (workspace : Workspace) : List Finding :=
  let classOf := fun (group : Resolved.ServiceGroup) =>
    workspace.registry.classes.find group.className.name
  let groups := workspace.program.serviceGroups.records.filter fun group =>
    (classOf group).isResolved
  (repeated classOf groups).map fun group =>
    ⟨.duplicateServiceGroup group.className.name, group.header.unit, group.className.span⟩

/-- Parameters of a url that share a name. -/
def parameters (program : Program) (url : Resolved.Url) : List Finding :=
  (repeated (·.name.name) (url.parameters.map program.parameters.get)).map fun parameter =>
    ⟨.duplicateParameter parameter.name.name url.declaration.displayPath,
      parameter.context.unit, parameter.name.span⟩

/-- Clauses of a service of the same kind. -/
def clauses (service : Resolved.Service) : List Finding :=
  (repeated (·.kind) service.clauses).map fun clause =>
    ⟨.duplicateClause clause.kind, clause.unit, clause.declaration.keywordSpan⟩

/-- Urls of a group with the same path, then the parameters and clauses of each url. -/
def group (program : Program) (record : Resolved.ServiceGroup) : List Finding :=
  let urls := record.urls.map program.urls.get
  (repeated (·.declaration.normalizedPath) urls).map (fun url =>
    ⟨.duplicateUrl url.declaration.displayPath record.header.name.name, record.header.unit,
      url.declaration.span⟩) ++
    urls.flatMap fun url =>
      parameters program url ++ url.services.flatMap fun service =>
        clauses (program.services.get service)

mutual

/-- Elements below a projection or reference that share a name, level by level. -/
def elements (unit : UnitId) (owner : String) (children : List ProjectionElement) : List Finding :=
  (repeated (·.name.name) children).map (fun child =>
    ⟨.duplicateProjectionMember (owner ++ "." ++ child.name.name), unit, child.name.span⟩) ++
    nestedElements unit owner children

/-- Elements below the references among `children` that share a name. -/
def nestedElements (unit : UnitId) (owner : String) : List ProjectionElement → List Finding
  | [] => []
  | .reference name _ children :: rest =>
    elements unit (owner ++ "." ++ name.name) children ++ nestedElements unit owner rest
  | _ :: rest => nestedElements unit owner rest

end

/-- Everything that must be unique. -/
def findings (workspace : Workspace) : List Finding :=
  let program := workspace.program
  topLevelNames workspace ++ userClasses program ++
    program.classifiers.flatMap (classifier program) ++ memberDetails program ++
    program.enumerations.records.flatMap literals ++ groupClasses workspace ++
    program.serviceGroups.records.flatMap (group program) ++
    program.projections.records.flatMap fun projection =>
      elements projection.header.unit projection.header.name.name projection.children

end DomainLang.Uniqueness
