import DomainLang.Hierarchy.Links

/-!
# Resolving services

The class of a group, the projection of a service and the enumeration of a
parameter are looked up by name.
-/

namespace DomainLang.Program

/-- Look up the names in service groups, services and parameters. -/
def linkServices (registry : Registry) (program : Program) : Program :=
  { program with
    serviceGroups := program.serviceGroups.map fun group =>
      { group with klass := some (registry.classes.find group.className.name) }
    services := program.services.map fun service =>
      { service with
        projection := service.declaration.projection.map fun name =>
          registry.projections.find name.name }
    parameters := program.parameters.map fun parameter =>
      { parameter with
        enumeration := registry.findTypeEnumeration parameter.declaration.type } }

end DomainLang.Program
