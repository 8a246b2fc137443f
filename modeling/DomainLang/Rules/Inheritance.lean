import DomainLang.Hierarchy.Lineage
import DomainLang.Program.Workspace

/-!
# Rules for inheritance and types

Every superclass, interface and member type exists and is of the right kind. An
interface is declared before it is used in its file, is not implied by another
parent, and no classifier inherits from itself. A name that is ambiguous is not
reported here, because its declarations are.
-/

namespace DomainLang.Rules

open Resolved (Header Classifier)
open Syntax (Identifier)

/-- A type that was not found. -/
def unknownType (unit : UnitId) (what : String) (name : Identifier) : Finding :=
  ⟨.unknownType what name.name, unit, name.span⟩

/-- Whether a declaration comes later in the same file. -/
def isForward (referrer referenced : Header) : Bool :=
  referrer.unit = referenced.unit && referrer.ordinal < referenced.ordinal

/-- Whether a parent of a classifier other than the interface itself implements it. -/
def isRedundant (program : Program) (index : ClassifierIndex) (interface : InterfaceIndex) :
    Bool :=
  (program.classifier index).resolvedInterfaces.any (fun other =>
      other ≠ interface && program.implements (.interface other) interface) ||
    match index with
    | .interface _ => false
    | .klass klass => (program.superclass? klass).any fun parent =>
      program.implements (.klass parent) interface

/-- The rules for one interface that a classifier names. -/
def implementedInterface (workspace : Workspace) (index : ClassifierIndex) (name : Identifier) :
    Resolution InterfaceIndex → List Finding
  | .ambiguous => []
  | .notFound =>
    let classifier := workspace.program.classifier index
    let unit := classifier.header.unit
    match workspace.registry.resolve name.name with
    | .resolved other =>
      [⟨.implementsOther classifier.name name.name other.kindName, unit, name.span⟩]
    | .ambiguous | .notFound => [unknownType unit "interface" name]
  | .resolved interface =>
    let program := workspace.program
    let classifier := program.classifier index
    let unit := classifier.header.unit
    (if isForward classifier.header (program.interfaces.get interface).header then
      [⟨.forwardInterface classifier.name name.name, unit, name.span⟩] else []) ++
    (if isRedundant program index interface then
      [⟨.redundantInterface name.name classifier.name, unit, name.span⟩] else [])

/-- An interface that implements itself. -/
def interfaceCycle (program : Program) : ClassifierIndex → List Finding
  | .klass _ => []
  | .interface index =>
    let header := (program.interfaces.get index).header
    if program.interfaceCycle index then
      [⟨.interfaceCycle header.name.name, header.unit, header.name.span⟩]
    else []

/-- The rules for the superclass that a class names. -/
def superclass (workspace : Workspace) : ClassifierIndex → List Finding
  | .interface _ => []
  | .klass index =>
    let klass := workspace.program.classes.get index
    let unit := klass.header.unit
    match klass.declaredSuperclass, klass.superclass with
    | some name, some (.resolved parent) =>
      if workspace.program.superclassCycle index parent then
        [⟨.superclassCycle klass.name name.name, unit, name.span⟩]
      else []
    | some name, some .notFound =>
      match workspace.registry.resolve name.name with
      | .resolved other => [⟨.extendsOther klass.name name.name other.kindName, unit, name.span⟩]
      | .ambiguous | .notFound => [unknownType unit "class" name]
    | _, _ => []

/-- The rules for what a classifier inherits from. -/
def inheritanceOf (workspace : Workspace) (index : ClassifierIndex) : List Finding :=
  let classifier := workspace.program.classifier index
  (classifier.declaredInterfaces.zip classifier.interfaces).flatMap (fun (name, resolution) =>
      implementedInterface workspace index name resolution) ++
    interfaceCycle workspace.program index ++ superclass workspace index

/-- An enumeration that was not found. -/
def unknownEnumeration (unit : UnitId) (type : Syntax.PropertyType)
    (enumeration : Option (Resolution EnumerationIndex)) : List Finding :=
  match type, enumeration with
  | .enumeration name, some .notFound => [unknownType unit "enumeration" name]
  | _, _ => []

/-- Types of members, ends, parameters and projections that were not found. -/
def memberTypes (program : Program) : List Finding :=
  program.properties.records.flatMap (fun property =>
      unknownEnumeration property.context.unit property.declaration.type property.enumeration) ++
    program.parameters.records.flatMap (fun parameter =>
      unknownEnumeration parameter.context.unit parameter.declaration.type
        parameter.enumeration) ++
    program.endSignatures.records.flatMap (fun signature =>
      if signature.target = some .notFound then
        [unknownType signature.context.unit "classifier" signature.declaration.target]
      else []) ++
    program.associationEnds.records.flatMap (fun associationEnd =>
      if associationEnd.target.isNotFound then
        [unknownType associationEnd.context.unit "class" associationEnd.declaration.target]
      else []) ++
    program.projections.records.flatMap fun projection =>
      if projection.classifier = some .notFound then
        [unknownType projection.header.unit "classifier" projection.classifierName]
      else []

/-- The rules for inheritance and types. -/
def inheritance (workspace : Workspace) : List Finding :=
  workspace.program.classifiers.flatMap (inheritanceOf workspace) ++ memberTypes workspace.program

end DomainLang.Rules
