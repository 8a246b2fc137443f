import DomainLang.Declaration.Members

/-!
# Declaring source files

Every declaration of every source file gets a record and is registered. Ordinals
follow the order of declarations across files. Declarations inside associations
and service groups get their records first; members of classifiers follow once
all names are known.
-/

namespace DomainLang.Phase

open Resolved (Header)

def declareEnumeration (header : Header) (declaration : Syntax.Enumeration) :
    Phase TopLevelIndex := do
  let index := (← get).program.enumerations.next
  modifyProgram fun program =>
    { program with
      enumerations := program.enumerations.push { header, literals := declaration.literals } }
  return .enumeration index

/-- Declare an interface without its members. -/
def declareInterface (header : Header) (declaration : Syntax.Interface) :
    Phase TopLevelIndex := do
  let index := (← get).program.interfaces.next
  modifyProgram fun program =>
    { program with
      interfaces := program.interfaces.push
        { header, modifiers := declaration.modifiers
          declaredInterfaces := declaration.interfaces } }
  return .interface index

/-- Declare a class without its members. -/
def declareClass (header : Header) (declaration : Syntax.Class) : Phase TopLevelIndex := do
  let index := (← get).program.classes.next
  modifyProgram fun program =>
    { program with
      classes := program.classes.push
        { header, modifiers := declaration.modifiers
          declaredInterfaces := declaration.interfaces
          isUser := declaration.isUser
          abstraction := declaration.abstraction
          declaredSuperclass := declaration.superclass } }
  return .klass index

/-- Declare an association and its two ends. -/
def declareAssociation (unit : CompilationUnit) (header : Header)
    (declaration : Syntax.Association) : Phase TopLevelIndex := do
  let program := (← get).program
  let association := program.associations.next
  let source := program.associationEnds.next
  let target : AssociationEndIndex := ⟨source.value + 1⟩
  let sourceContext := unit.context declaration.source.id
  let targetContext := unit.context declaration.target.id
  modifyProgram fun program =>
    { program with
      associationEnds := (program.associationEnds.push
        { association, isSource := true, declaration := declaration.source
          opposite := target, context := sourceContext }).push
        { association, isSource := false, declaration := declaration.target
          opposite := source, context := targetContext } }
  registerContext sourceContext (.associationEnd source)
  registerContext targetContext (.associationEnd target)
  modifyProgram fun program =>
    { program with
      associations := program.associations.push
        { header, source, target, declaredRelationship := declaration.relationship } }
  return .association association

def declareProjection (header : Header) (declaration : Syntax.Projection) :
    Phase TopLevelIndex := do
  let index := (← get).program.projections.next
  modifyProgram fun program =>
    { program with
      projections := program.projections.push
        { header, classifierName := declaration.classifier
          declaredChildren := declaration.children } }
  return .projection index

def declareParameter (unit : CompilationUnit) (url : UrlIndex)
    (declaration : Syntax.Parameter) : Phase ParameterIndex := do
  let index := (← get).program.parameters.next
  let context := unit.context declaration.id
  modifyProgram fun program =>
    { program with parameters := program.parameters.push { url, declaration, context } }
  registerContext context (.parameter index)
  return index

/-- Declare a segment of the path of a url. -/
def declareSegment (unit : CompilationUnit) (url : UrlIndex) :
    Syntax.UrlSegment → Phase Resolved.UrlSegment
  | .constant name => return .constant name.name
  | .parameter declaration => return .parameter (← declareParameter unit url declaration)

/-- Declare a service of a url with its clauses. -/
def declareService (unit : CompilationUnit) (url : UrlIndex) (declaration : Syntax.Service) :
    Phase ServiceIndex := do
  let index := (← get).program.services.next
  let context := unit.context declaration.id
  modifyProgram fun program =>
    { program with services := program.services.push { url, declaration, context } }
  registerContext context (.service index)
  declareClauses unit.id index none declaration.clauses
  return index

/-- Declare a url with its parameters and services. -/
def declareUrl (unit : CompilationUnit) (group : ServiceGroupIndex) (declaration : Syntax.Url) :
    Phase UrlIndex := do
  let index := (← get).program.urls.next
  let context := unit.context declaration.id
  modifyProgram fun program =>
    { program with urls := program.urls.push { group, declaration, context } }
  registerContext context (.url index)
  let path ← declaration.path.mapM (declareSegment unit index)
  let queryParameters ← declaration.queryParameters.mapM (declareParameter unit index)
  let services ← declaration.services.mapM (declareService unit index)
  modifyProgram fun program =>
    { program with
      urls := program.urls.modify index fun record =>
        { record with path, queryParameters, services } }
  return index

/-- Declare a service group with its urls. -/
def declareServiceGroup (unit : CompilationUnit) (header : Header)
    (declaration : Syntax.ServiceGroup) : Phase TopLevelIndex := do
  let index := (← get).program.serviceGroups.next
  modifyProgram fun program =>
    { program with
      serviceGroups := program.serviceGroups.push { header, className := declaration.target } }
  let urls ← declaration.urls.mapM (declareUrl unit index)
  modifyProgram fun program =>
    { program with
      serviceGroups := program.serviceGroups.modify index fun record => { record with urls } }
  return .serviceGroup index

/-- The next ordinal. -/
def drawOrdinal : Phase Nat := do
  let (ordinal, registry) := (← get).registry.drawOrdinal
  modify fun workspace => { workspace with registry }
  return ordinal

/-- Declare and register one declaration of a source file. -/
def declareElement (unit : CompilationUnit) (element : Syntax.Declaration) : Phase Unit := do
  let header : Header :=
    { name := element.name, package := unit.package, ordinal := ← drawOrdinal, unit := unit.id
      sourceName := unit.sourceName, context := unit.context element.node.id
      span := element.node.span }
  let index ← match element with
    | .enumeration declaration => declareEnumeration header declaration
    | .interface declaration => declareInterface header declaration
    | .klass declaration => declareClass header declaration
    | .association declaration => declareAssociation unit header declaration
    | .projection declaration => declareProjection header declaration
    | .serviceGroup declaration => declareServiceGroup unit header declaration
  updateRegistry (·.register header.name.name index header.context)

/-- Visit the declarations of every source file in order. -/
def eachDeclaration (visit : CompilationUnit → Syntax.Declaration → Phase Unit) : Phase Unit := do
  (← get).units.forM fun unit =>
    inFrame (.unit unit.id) do
      match unit.tree? with
      | none => pure ()
      | some tree => tree.elements.forM (visit unit)

/-- Declare everything but the members of classifiers. -/
def declareUnits : Phase Unit :=
  eachDeclaration declareElement

/-- The classifier that was registered for a context. -/
def registeredClassifier (context : ContextKey) : Phase ClassifierIndex := do
  match (← get).registry.lookup context with
  | .error fault => throw fault
  | .ok (.topLevel index) =>
    match index.classifier? with
    | some classifier => return classifier
    | none => throw (.unknownContext context)
  | .ok _ => throw (.unknownContext context)

/-- Declare the members written in a classifier. -/
def declareElementMembers (unit : CompilationUnit) (element : Syntax.Declaration) :
    Phase Unit := do
  match element.members? with
  | none => pure ()
  | some members =>
    let owner ← registeredClassifier (unit.context element.node.id)
    inFrame (.classifier owner) (declareMembers unit owner none members)

def declareClassifierMembers : Phase Unit :=
  eachDeclaration declareElementMembers

end DomainLang.Phase
