import DomainLang.Program.Basic
import DomainLang.Program.Registry

/-!
# Resolving association ends

An end is owned by the class that the opposite end leads to. A class lists its
ends in declaration order.
-/

namespace DomainLang.Program

/-- The ends with the class that each leads to. -/
def endsWithTargets (registry : Registry) (program : Program) :
    Arena .associationEnd Resolved.AssociationEnd :=
  program.associationEnds.map fun associationEnd =>
    { associationEnd with
      target := registry.classes.find associationEnd.declaration.target.name }

/-- The ends with the class that each leads to and the class that owns it. -/
def endsWithOwners (registry : Registry) (program : Program) :
    Arena .associationEnd Resolved.AssociationEnd :=
  let ends := program.endsWithTargets registry
  ends.map fun associationEnd =>
    { associationEnd with owner := (ends.get associationEnd.opposite).target.value? }

/-- Look up the classes of association ends and give every class its ends. -/
def linkAssociations (registry : Registry) (program : Program) : Program :=
  let ends := program.endsWithOwners registry
  { program with
    associationEnds := ends
    classes := program.classes.mapWithIndex fun index klass =>
      { klass with
        associationEnds := klass.associationEnds ++
          ends.indices.filter fun associationEnd => (ends.get associationEnd).owner = some index } }

end DomainLang.Program
