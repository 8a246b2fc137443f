import DomainLang.Diagnostic.Basic
import DomainLang.Hierarchy.Lineage

/-!
# Rules for classes

A class that is stored has a key, and its keys are all ids or none is. A
transient class declares no id. A class is not both a version and versioned.
-/

namespace DomainLang.Rules

open Resolved (Property)

/-- A class that is stored without a key. -/
def missingKey (klass : Resolved.Class) (properties : List Property) : List Finding :=
  if !klass.isTransient && !properties.any (·.has .key) then
    [⟨.missingKey klass.name, klass.header.unit, klass.header.name.span⟩]
  else []

/-- A class with ids and with keys that are not ids. -/
def mixedKeys (klass : Resolved.Class) (properties : List Property) : List Finding :=
  if properties.any (·.has .id) &&
      properties.any (fun property => property.has .key && !property.has .id) then
    [⟨.keysAndIds klass.name, klass.header.unit, klass.header.name.span⟩]
  else []

/-- The ids that a transient class declares. -/
def transientIds (program : Program) (klass : Resolved.Class) : List Finding :=
  if klass.isTransient then
    ((klass.properties.map program.properties.get).filter (·.has .id)).map fun property =>
      ⟨.transientId klass.name property.name.name, property.context.unit, property.name.span⟩
  else []

/-- A class that owns a version end and a versioned end. -/
def versionAndVersioned (program : Program) (klass : Resolved.Class) : List Finding :=
  let ends := klass.associationEnds.map program.associationEnds.get
  match ends.find? (·.has .version), ends.find? (·.has .versioned) with
  | some version, some versioned =>
    [⟨.versionAndVersioned klass.name version.name.name versioned.name.name, klass.header.unit,
      klass.header.name.span⟩]
  | _, _ => []

def classRules (program : Program) (index : ClassIndex) : List Finding :=
  let klass := program.classes.get index
  let properties := (program.allProperties (.klass index)).map program.properties.get
  missingKey klass properties ++ mixedKeys klass properties ++ transientIds program klass ++
    versionAndVersioned program klass

def classes (program : Program) : List Finding :=
  program.classes.indices.flatMap (classRules program)

end DomainLang.Rules
