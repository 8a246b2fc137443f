import DomainLang.Program.Basic
import DomainLang.Program.Registry

/-!
# Resolving superclasses, interfaces and member types

Every lookup is stored, whatever its outcome.
-/

namespace DomainLang

namespace Registry

/-- The enumeration that a type names, when it is one. -/
def findTypeEnumeration (registry : Registry) :
    Syntax.PropertyType → Option (Resolution EnumerationIndex)
  | .primitive _ => none
  | .enumeration name => some (registry.enumerations.find name.name)

def findInterfaces (registry : Registry) (names : List Syntax.Identifier) :
    List (Resolution InterfaceIndex) :=
  names.map fun name => registry.interfaces.find name.name

end Registry

namespace Program

/-- Look up the interfaces of classifiers, the superclasses of classes and the types
of members. -/
def linkHierarchy (registry : Registry) (program : Program) : Program :=
  { program with
    interfaces := program.interfaces.map fun interface =>
      { interface with interfaces := registry.findInterfaces interface.declaredInterfaces }
    classes := program.classes.map fun klass =>
      { klass with
        interfaces := registry.findInterfaces klass.declaredInterfaces
        superclass := klass.declaredSuperclass.map fun name => registry.classes.find name.name }
    properties := program.properties.map fun property =>
      { property with enumeration := registry.findTypeEnumeration property.declaration.type }
    endSignatures := program.endSignatures.map fun signature =>
      { signature with
        target := some (registry.findClassifier signature.declaration.target.name) } }

end Program
end DomainLang
