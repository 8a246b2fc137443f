import DomainLang.Assembly.Criteria
import DomainLang.Hierarchy.Lineage
import DomainLang.Model.Domain

/-!
# Assembling models

The records of an analysed program become the records of a model, with indices
replaced by ids.
-/

namespace DomainLang.Assembly

open Allocation (idOf idsOf)

/-- What every top-level element has. -/
def info (header : Resolved.Header) : Model.Info where
  name := header.name.name
  package := header.package
  ordinal := header.ordinal
  sourceName := header.sourceName
  span := header.span

/-- The modifiers without their places. -/
def modifiers (marks : List Syntax.ModifierMark) : List Modifier :=
  marks.map (·.modifier)

def enumeration (record : Resolved.Enumeration) : Model.Enumeration where
  info := info record.header
  literals := record.literals.map fun literal => ⟨literal.name.name, literal.prettyName⟩

/-- Assemble the interfaces that a classifier names. -/
def interfaces (allocation : Allocation) (classifier : Resolved.Classifier) :
    Except Fault (List Model.InterfaceId) :=
  (classifier.interfaces.zip classifier.declaredInterfaces).mapM fun (resolution, name) => do
    idOf allocation.interfaces (← resolved resolution ("interface '" ++ name.name ++ "'"))

def interface (program : Program) (allocation : Allocation) (index : InterfaceIndex) :
    Except Fault Model.Interface := do
  let record := program.interfaces.get index
  return {
    info := info record.header
    modifiers := modifiers record.modifiers
    interfaces := ← interfaces allocation record
    declaredProperties := ← idsOf allocation.properties record.properties
    properties := ← idsOf allocation.properties (program.allProperties (.interface index))
    endSignatures := ← idsOf allocation.endSignatures record.endSignatures }

/-- Assemble the superclass of a class, if it names one. -/
def superclass (allocation : Allocation) (record : Resolved.Class) :
    Except Fault (Option Model.ClassId) :=
  match record.superclass with
  | none => return none
  | some resolution => do
    let parent ← resolved resolution ("superclass of '" ++ record.name ++ "'")
    return some (← idOf allocation.classes parent)

/-- The first end of a class with a modifier, inherited ends included. -/
def markedEnd (program : Program) (allocation : Allocation) (index : ClassIndex)
    (modifier : Modifier) : Except Fault (Option Model.AssociationEndId) :=
  ((program.allAssociationEnds index).find? fun associationEnd =>
    (program.associationEnds.get associationEnd).has modifier).mapM
      (idOf allocation.associationEnds)

def klass (program : Program) (allocation : Allocation) (index : ClassIndex) :
    Except Fault Model.Class := do
  let record := program.classes.get index
  let parent ← superclass allocation record
  return {
    info := info record.header
    isUser := record.isUser
    isAbstract := record.isAbstract
    inheritance := record.abstraction.bind (·.inheritance)
    superclass := parent
    modifiers := modifiers record.modifiers
    interfaces := ← interfaces allocation record.toClassifier
    declaredProperties := ← idsOf allocation.properties record.properties
    properties := ← idsOf allocation.properties (program.allProperties (.klass index))
    endSignatures := ← idsOf allocation.endSignatures record.endSignatures
    associationEnds := ← idsOf allocation.associationEnds record.associationEnds
    versionEnd := ← markedEnd program allocation index .version
    versionedEnd := ← markedEnd program allocation index .versioned }

/-- Assemble the type of a property or parameter. -/
def dataType (allocation : Allocation) (type : Syntax.PropertyType)
    (enumeration : Option (Resolution EnumerationIndex)) : Except Fault Model.DataType :=
  match type with
  | .primitive primitive => return .primitive primitive
  | .enumeration name => do
    let index ← resolved (enumeration.getD .notFound) ("enumeration '" ++ name.name ++ "'")
    return .enumeration (← idOf allocation.enumerations index)

def property (program : Program) (allocation : Allocation) (index : PropertyIndex) :
    Except Fault Model.Property := do
  let record := program.properties.get index
  let declaration := record.declaration
  return {
    name := record.name.name
    owner := ← allocation.classifierId record.owner
    dataType := ← dataType allocation declaration.type record.enumeration
    optional := declaration.optional
    modifiers := modifiers declaration.modifiers
    validations := declaration.validations.map fun validation => ⟨validation.kind, validation.value⟩
    span := declaration.span }

def endSignature (program : Program) (allocation : Allocation) (index : EndSignatureIndex) :
    Except Fault Model.EndSignature := do
  let record := program.endSignatures.get index
  let declaration := record.declaration
  let target ← resolved (record.target.getD .notFound)
    ("target of end signature '" ++ record.name.name ++ "'")
  return {
    name := record.name.name
    owner := ← allocation.classifierId record.owner
    target := ← allocation.classifierId target
    multiplicity := declaration.multiplicity
    modifiers := modifiers declaration.modifiers
    span := declaration.span }

def foreignKey (allocation : Allocation) (record : Resolved.ForeignKey) :
    Except Fault Model.ForeignKey := do
  return ⟨← idOf allocation.associationEnds record.associationEnd,
    ← idOf allocation.properties record.foreignKey, ← idOf allocation.properties record.key⟩

/-- Assemble an association and its foreign keys. -/
def association (program : Program) (allocation : Allocation) (index : AssociationIndex) :
    Except Fault (Model.Association × List Model.ForeignKey) := do
  let record := program.associations.get index
  let relationship ← filled record.relationship
    ("relationship of '" ++ record.header.name.name ++ "'")
  let assembled : Model.Association := {
    info := info record.header
    source := ← idOf allocation.associationEnds record.source
    target := ← idOf allocation.associationEnds record.target
    criteria := ← criteria allocation relationship
    join := record.join.getD .predicate }
  return (assembled, ← record.foreignKeys.mapM (foreignKey allocation))

def associationEnd (program : Program) (allocation : Allocation) (index : AssociationEndIndex) :
    Except Fault Model.AssociationEnd := do
  let record := program.associationEnds.get index
  let declaration := record.declaration
  let what := "association end '" ++ record.name.name ++ "'"
  let target ← resolved record.target what
  let owner ← filled record.owner ("owner of " ++ what)
  return {
    name := record.name.name
    association := ← idOf allocation.associations record.association
    owner := ← idOf allocation.classes owner
    target := ← idOf allocation.classes target
    multiplicity := declaration.multiplicity
    modifiers := modifiers declaration.modifiers
    orderBy := ← orderBy allocation record.orderBy
    opposite := ← idOf allocation.associationEnds record.opposite
    span := declaration.span }

/-- Assemble what a projection navigates along. -/
def reference (allocation : Allocation) (name : String)
    (resolution : Resolution Resolved.Reference) : Except Fault Model.Reference := do
  match ← resolved resolution ("projection reference '" ++ name ++ "'") with
  | .associationEnd index =>
    return .associationEnd (← idOf allocation.associationEnds index)
  | .signature index => return .signature (← idOf allocation.endSignatures index)

mutual

def projectionElement (allocation : Allocation) :
    Resolved.ProjectionElement → Except Fault Model.ProjectionElement
  | .property name header resolution => do
    let index ← resolved resolution ("projection property '" ++ name.name ++ "'")
    return .property name.name header (← idOf allocation.properties index)
  | .reference name resolution children => do
    let target ← reference allocation name.name resolution
    return .reference name.name target (← projectionElements allocation children)
  | .projection name resolution projectionName projection => do
    let index ← resolved projection ("projection '" ++ projectionName.name ++ "'")
    let target ← reference allocation name.name resolution
    return .projection name.name target (← idOf allocation.projections index)

def projectionElements (allocation : Allocation) :
    List Resolved.ProjectionElement → Except Fault (List Model.ProjectionElement)
  | [] => return []
  | element :: rest => do
    let first ← projectionElement allocation element
    return first :: (← projectionElements allocation rest)

end

def projection (program : Program) (allocation : Allocation) (index : ProjectionIndex) :
    Except Fault Model.Projection := do
  let record := program.projections.get index
  let classifier ← resolved (record.classifier.getD .notFound)
    ("classifier of projection '" ++ record.header.name.name ++ "'")
  return ⟨info record.header, ← allocation.classifierId classifier,
    ← projectionElements allocation record.children⟩

def serviceGroup (program : Program) (allocation : Allocation) (index : ServiceGroupIndex) :
    Except Fault Model.ServiceGroup := do
  let record := program.serviceGroups.get index
  let klass ← resolved (record.klass.getD .notFound)
    ("class of service group '" ++ record.header.name.name ++ "'")
  return ⟨info record.header, ← idOf allocation.classes klass,
    ← idsOf allocation.urls record.urls⟩

/-- Assemble a segment of the path of a url. -/
def urlSegment (allocation : Allocation) : Resolved.UrlSegment → Except Fault Model.UrlSegment
  | .constant text => return .constant text
  | .parameter index => return .parameter (← idOf allocation.parameters index)

def url (program : Program) (allocation : Allocation) (index : UrlIndex) :
    Except Fault Model.Url := do
  let record := program.urls.get index
  let path ← record.path.mapM (urlSegment allocation)
  return ⟨← idOf allocation.serviceGroups record.group, path,
    ← idsOf allocation.parameters record.queryParameters,
    ← idsOf allocation.services record.services, record.declaration.span⟩

def parameter (program : Program) (allocation : Allocation) (index : ParameterIndex) :
    Except Fault Model.Parameter := do
  let record := program.parameters.get index
  return ⟨record.name.name, ← idOf allocation.urls record.url,
    ← dataType allocation record.declaration.type record.enumeration,
    record.declaration.multiplicity⟩

/-- Assemble a clause of a service. -/
def clause (allocation : Allocation) (verb : Verb) (record : Resolved.Clause) :
    Except Fault Model.Clause := do
  let found ← filled record.criteria
    ("'" ++ keyword record.kind ++ "' clause of a " ++ keyword verb ++ " service")
  return ⟨record.kind, ← criteria allocation found, record.inferred.isSome⟩

/-- Assemble the projection of a service, if it names one. -/
def serviceProjection (allocation : Allocation) (record : Resolved.Service) :
    Except Fault (Option Model.ProjectionId) :=
  match record.declaration.projection, record.projection with
  | some name, some resolution => do
    let index ← resolved resolution ("projection '" ++ name.name ++ "'")
    return some (← idOf allocation.projections index)
  | _, _ => return none

def service (program : Program) (allocation : Allocation) (index : ServiceIndex) :
    Except Fault Model.Service := do
  let record := program.services.get index
  let declaration := record.declaration
  let clauses ← record.clauses.mapM (clause allocation declaration.verb)
  let projection ← serviceProjection allocation record
  return ⟨← idOf allocation.urls record.url, declaration.verb, declaration.multiplicity, clauses,
    projection, ← orderBy allocation record.orderBy, declaration.span⟩

def parts (program : Program) : Except Fault Model.Parts := do
  let allocation := Allocation.ofProgram program
  let interfaces ← allocation.interfaces.mapM (interface program allocation)
  let classes ← allocation.classes.mapM (klass program allocation)
  let properties ← allocation.properties.mapM (property program allocation)
  let endSignatures ← allocation.endSignatures.mapM (endSignature program allocation)
  let associations ← allocation.associations.mapM (association program allocation)
  let associationEnds ← allocation.associationEnds.mapM (associationEnd program allocation)
  let projections ← allocation.projections.mapM (projection program allocation)
  let serviceGroups ← allocation.serviceGroups.mapM (serviceGroup program allocation)
  let urls ← allocation.urls.mapM (url program allocation)
  let parameters ← allocation.parameters.mapM (parameter program allocation)
  let services ← allocation.services.mapM (service program allocation)
  return {
    enumerations := allocation.enumerations.map fun index =>
      enumeration (program.enumerations.get index)
    interfaces, classes, properties, endSignatures
    associations := associations.map (·.1)
    associationEnds
    foreignKeys := associations.flatMap (·.2)
    projections, serviceGroups, urls, parameters, services }

def model (program : Program) : Except Fault DomainModel := do
  return .ofParts (← parts program)

end DomainLang.Assembly
