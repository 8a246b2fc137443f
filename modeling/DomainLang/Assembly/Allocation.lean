import DomainLang.Model.Id
import DomainLang.Program.Basic
import DomainLang.Program.Fault

/-!
# Allocating ids

Records get their ids in declaration order: top-level declarations are taken in
declaration order and the records inside each in the order in which it lists them.
Each record that has no id yet gets the next one of its kind.
-/

namespace DomainLang

/-- The records of every kind in the order of their ids. -/
structure Allocation where
  enumerations : List EnumerationIndex
  interfaces : List InterfaceIndex
  classes : List ClassIndex
  properties : List PropertyIndex
  endSignatures : List EndSignatureIndex
  associations : List AssociationIndex
  associationEnds : List AssociationEndIndex
  projections : List ProjectionIndex
  serviceGroups : List ServiceGroupIndex
  urls : List UrlIndex
  parameters : List ParameterIndex
  services : List ServiceIndex
  deriving DecidableEq, Repr

namespace Allocation

/-- Give a record the next id of its kind, unless it has one. -/
def allocate {kind : RecordKind} (order : List (Index kind)) (index : Index kind) :
    List (Index kind) :=
  if index ∈ order then order else order ++ [index]

/-- The order of ids when records are taken one after another. -/
def allocateAll {kind : RecordKind} (indices : List (Index kind)) : List (Index kind) :=
  indices.foldl allocate []

/-- The records of a program in the order of their ids. -/
def ofProgram (program : Program) : Allocation :=
  let elements := program.topLevel
  let classifiers := elements.filterMap TopLevelIndex.classifier?
  let associations := allocateAll <| elements.filterMap fun
    | .association index => some index
    | _ => none
  let serviceGroups := allocateAll <| elements.filterMap fun
    | .serviceGroup index => some index
    | _ => none
  let urls := allocateAll <| serviceGroups.flatMap fun group =>
    (program.serviceGroups.get group).urls
  { enumerations := allocateAll <| elements.filterMap fun
      | .enumeration index => some index
      | _ => none
    interfaces := allocateAll <| elements.filterMap fun
      | .interface index => some index
      | _ => none
    classes := allocateAll <| elements.filterMap fun
      | .klass index => some index
      | _ => none
    properties := allocateAll <| classifiers.flatMap fun index =>
      (program.classifier index).properties
    endSignatures := allocateAll <| classifiers.flatMap fun index =>
      (program.classifier index).endSignatures
    associations
    associationEnds := allocateAll <| associations.flatMap fun index =>
      [(program.associations.get index).source, (program.associations.get index).target]
    projections := allocateAll <| elements.filterMap fun
      | .projection index => some index
      | _ => none
    serviceGroups
    urls
    parameters := allocateAll <| urls.flatMap fun url => (program.urls.get url).parameters
    services := allocateAll <| urls.flatMap fun url => (program.urls.get url).services }

/-- How a kind of record is called when one of its records has no id. -/
def kindText : RecordKind → String
  | .endSignature => "end signature"
  | .associationEnd => "association end"
  | kind => Model.kindLabel kind

/-- How the indices of a kind are called there. -/
def indexTitle : RecordKind → String
  | .enumeration => "EnumerationIdx"
  | .interface => "InterfaceIdx"
  | .klass => "KlassIdx"
  | .property => "PropertyIdx"
  | .endSignature => "EndSignatureIdx"
  | .association => "AssociationIdx"
  | .associationEnd => "AssociationEndIdx"
  | .projection => "ProjectionIdx"
  | .serviceGroup => "ServiceGroupIdx"
  | .url => "UrlIdx"
  | .parameter => "ParameterIdx"
  | .service => "ServiceIdx"

/-- A record that has no id. -/
def missing {kind : RecordKind} (index : Index kind) : String :=
  kindText kind ++ " " ++ indexTitle kind ++ "(" ++ toString index.value ++ ")"

/-- The id of a record, given the records of its kind in the order of their ids. -/
def idOf {kind : RecordKind} (order : List (Index kind)) (index : Index kind) :
    Except Fault (Model.Id kind) :=
  match order.idxOf? index with
  | some position => .ok ⟨position⟩
  | none => .error (.missingIndex (missing index))

/-- The ids of several records of a kind. -/
def idsOf {kind : RecordKind} (order indices : List (Index kind)) :
    Except Fault (List (Model.Id kind)) :=
  indices.mapM (idOf order)

def classifierId (allocation : Allocation) : ClassifierIndex → Except Fault Model.ClassifierId
  | .interface index => return .interface (← idOf allocation.interfaces index)
  | .klass index => return .klass (← idOf allocation.classes index)

end Allocation
end DomainLang
