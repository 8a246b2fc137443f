import DomainLang.Program.Fault
import DomainLang.Resolution

/-!
# The registry of declarations

Every top-level declaration is registered by name, in the namespace that all
kinds share and in the one of its kind, and every declaration is registered by
its context. A name given twice becomes ambiguous; a context given twice is a
fault. Registering gives the outcome and the registry that is left behind.
-/

namespace DomainLang

/-- Names and what they resolve to, in the order of their first use. -/
structure SymbolTable (α : Type) where
  entries : List (String × Resolution α) := []
  deriving DecidableEq, Repr, Inhabited

namespace SymbolTable

variable {α : Type}

/-- Merge a candidate into the entry of a name, which is added when missing. -/
def mergeEntry (name : String) (value : α) :
    List (String × Resolution α) → List (String × Resolution α)
  | [] => [(name, .resolved value)]
  | entry :: rest =>
    if entry.1 = name then (name, entry.2.merge value) :: rest
    else entry :: mergeEntry name value rest

/-- Add a candidate for a name. -/
def insert (table : SymbolTable α) (name : String) (value : α) : SymbolTable α :=
  ⟨mergeEntry name value table.entries⟩

/-- What a name resolves to. -/
def find (table : SymbolTable α) (name : String) : Resolution α :=
  (table.entries.lookup name).getD .notFound

end SymbolTable

/-- Declarations by name and by context. -/
structure Registry where
  topLevel : SymbolTable TopLevelIndex := {}
  enumerations : SymbolTable EnumerationIndex := {}
  interfaces : SymbolTable InterfaceIndex := {}
  classes : SymbolTable ClassIndex := {}
  associations : SymbolTable AssociationIndex := {}
  projections : SymbolTable ProjectionIndex := {}
  serviceGroups : SymbolTable ServiceGroupIndex := {}
  contexts : List (ContextKey × RecordIndex) := []
  nextOrdinal : Nat := 0
  deriving DecidableEq, Repr, Inhabited

namespace Registry

/-- The next ordinal, shared by all kinds, and the registry that gives the one after it. -/
def drawOrdinal (registry : Registry) : Nat × Registry :=
  (registry.nextOrdinal, { registry with nextOrdinal := registry.nextOrdinal + 1 })

/-- Register a declaration by context. -/
def registerContext (registry : Registry) (context : ContextKey) (record : RecordIndex) :
    Except Fault Unit × Registry :=
  if registry.contexts.any (·.1 = context) then (.error (.duplicateContext context), registry)
  else (.ok (), { registry with contexts := (context, record) :: registry.contexts })

/-- Register a name in the namespace of its kind and in the shared one. -/
def registerName (registry : Registry) (name : String) (index : TopLevelIndex) : Registry :=
  let shared := { registry with topLevel := registry.topLevel.insert name index }
  match index with
  | .enumeration index => { shared with enumerations := shared.enumerations.insert name index }
  | .interface index => { shared with interfaces := shared.interfaces.insert name index }
  | .klass index => { shared with classes := shared.classes.insert name index }
  | .association index => { shared with associations := shared.associations.insert name index }
  | .projection index => { shared with projections := shared.projections.insert name index }
  | .serviceGroup index => { shared with serviceGroups := shared.serviceGroups.insert name index }

/-- Register a top-level declaration by context and by name. -/
def register (registry : Registry) (name : String) (index : TopLevelIndex)
    (context : ContextKey) : Except Fault Unit × Registry :=
  match registry.registerContext context (.topLevel index) with
  | (.error fault, registry) => (.error fault, registry)
  | (.ok (), registry) => (.ok (), registry.registerName name index)

/-- The declaration of a context. -/
def lookup (registry : Registry) (context : ContextKey) : Except Fault RecordIndex :=
  match registry.contexts.lookup context with
  | some record => .ok record
  | none => .error (.unknownContext context)

/-- The declaration of a name, of any kind. -/
def resolve (registry : Registry) (name : String) : Resolution TopLevelIndex :=
  registry.topLevel.find name

/-- The class or interface of a name; a name that is both is ambiguous. -/
def findClassifier (registry : Registry) (name : String) : Resolution ClassifierIndex :=
  match registry.classes.find name, registry.interfaces.find name with
  | .notFound, interface => interface.map .interface
  | klass, .notFound => klass.map .klass
  | _, _ => .ambiguous

/-- The registered names in the order of their first use. -/
def names (registry : Registry) : List (String × Resolution TopLevelIndex) :=
  registry.topLevel.entries

end Registry
end DomainLang
