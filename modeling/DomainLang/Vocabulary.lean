import DomainLang.Json.Codec

/-!
# Keyword vocabularies

Each vocabulary is a closed set of words with two spellings: the keyword of the
language, and the name used for the word in JSON. Both spellings of a vocabulary
live in its `Vocabulary` instance and nowhere else.
-/

namespace DomainLang

/-- A closed set of words. -/
class Vocabulary (α : Type) where
  /-- What a word of the set is called in a message. -/
  title : String
  /-- Every word, in the order of the language reference. -/
  all : List α
  /-- The spelling in the language. -/
  keyword : α → String
  /-- The spelling in JSON. -/
  name : α → String

export Vocabulary (keyword)

namespace Vocabulary

/-- The word with a given keyword. -/
def ofKeyword? {α : Type} [Vocabulary α] (spelling : String) : Option α :=
  (all : List α).find? fun word => keyword word = spelling

/-- The word with a given JSON name. -/
def ofName? {α : Type} [Vocabulary α] (spelling : String) : Option α :=
  (all : List α).find? fun word => name word = spelling

/-- The message for a spelling that is no keyword of the vocabulary. -/
def unknownKeyword (α : Type) [Vocabulary α] (spelling : String) : String :=
  "unknown " ++ title α ++ " '" ++ spelling ++ "'"

/-- Words are written by their JSON name. -/
abbrev codec {α : Type} [Vocabulary α] : Codec α where
  encode word := .text (name word)
  decode json := json.word?.bind ofName?

end Vocabulary

/-- The types a property can have without being declared. -/
inductive Primitive where
  | integer | long | double | float | boolean | string | instant | localDate
  | temporalInstant | temporalRange
  deriving DecidableEq, Repr, Inhabited

namespace Primitive

/-- Keyword and JSON name are the same. -/
def spelling : Primitive → String
  | integer => "Integer"
  | long => "Long"
  | double => "Double"
  | float => "Float"
  | boolean => "Boolean"
  | string => "String"
  | instant => "Instant"
  | localDate => "LocalDate"
  | temporalInstant => "TemporalInstant"
  | temporalRange => "TemporalRange"

instance : Vocabulary Primitive where
  title := "primitive type"
  all := [integer, long, double, float, boolean, string, instant, localDate,
    temporalInstant, temporalRange]
  keyword := spelling
  name := spelling

instance : Codec Primitive := Vocabulary.codec

/-- Whether values of the type are numbers. -/
def isNumeric (primitive : Primitive) : Bool :=
  primitive ∈ [integer, long, double, float]

/-- Whether values of the type belong to a temporal family. -/
def isTemporal (primitive : Primitive) : Bool :=
  primitive ∈ [temporalInstant, temporalRange]

end Primitive

/-- The words that qualify classifiers, properties and association ends. -/
inductive Modifier where
  | systemTemporal | validTemporal | bitemporal | audited | transient | optimisticallyLocked
  | key | id | privateAccess | userId | version | createdBy | createdOn | lastUpdatedBy
  | system | valid | fromInstant | toInstant | finalValue | derivedValue
  | owned | versioned
  deriving DecidableEq, Repr, Inhabited

namespace Modifier

instance : Vocabulary Modifier where
  title := "modifier"
  all := [systemTemporal, validTemporal, bitemporal, audited, transient, optimisticallyLocked,
    key, id, privateAccess, userId, version, createdBy, createdOn, lastUpdatedBy,
    system, valid, fromInstant, toInstant, finalValue, derivedValue, owned, versioned]
  keyword
    | systemTemporal => "systemTemporal"
    | validTemporal => "validTemporal"
    | bitemporal => "bitemporal"
    | audited => "audited"
    | transient => "transient"
    | optimisticallyLocked => "optimisticallyLocked"
    | key => "key"
    | id => "id"
    | privateAccess => "private"
    | userId => "userId"
    | version => "version"
    | createdBy => "createdBy"
    | createdOn => "createdOn"
    | lastUpdatedBy => "lastUpdatedBy"
    | system => "system"
    | valid => "valid"
    | fromInstant => "from"
    | toInstant => "to"
    | finalValue => "final"
    | derivedValue => "derived"
    | owned => "owned"
    | versioned => "versioned"
  name
    | systemTemporal => "SystemTemporal"
    | validTemporal => "ValidTemporal"
    | bitemporal => "Bitemporal"
    | audited => "Audited"
    | transient => "Transient"
    | optimisticallyLocked => "OptimisticallyLocked"
    | key => "Key"
    | id => "Id"
    | privateAccess => "Private"
    | userId => "UserId"
    | version => "Version"
    | createdBy => "CreatedBy"
    | createdOn => "CreatedOn"
    | lastUpdatedBy => "LastUpdatedBy"
    | system => "System"
    | valid => "Valid"
    | fromInstant => "From"
    | toInstant => "To"
    | finalValue => "Final"
    | derivedValue => "Derived"
    | owned => "Owned"
    | versioned => "Versioned"

instance : Codec Modifier := Vocabulary.codec

/-- Whether the word makes a classifier temporal. -/
def isTemporalClassifier (modifier : Modifier) : Bool :=
  modifier ∈ [systemTemporal, validTemporal, bitemporal]

/-- Whether the word marks a property that records who changed what and when. -/
def isAudit (modifier : Modifier) : Bool :=
  modifier ∈ [createdBy, createdOn, lastUpdatedBy]

end Modifier

/-- How an abstract class and its subclasses are stored. -/
inductive InheritanceType where
  | tablePerSubclass | tableForAllSubclasses | tablePerClass
  deriving DecidableEq, Repr, Inhabited

namespace InheritanceType

instance : Vocabulary InheritanceType where
  title := "inheritance type"
  all := [tablePerSubclass, tableForAllSubclasses, tablePerClass]
  keyword
    | tablePerSubclass => "table-per-subclass"
    | tableForAllSubclasses => "table-for-all-subclasses"
    | tablePerClass => "table-per-class"
  name
    | tablePerSubclass => "TablePerSubclass"
    | tableForAllSubclasses => "TableForAllSubclasses"
    | tablePerClass => "TablePerClass"

instance : Codec InheritanceType := Vocabulary.codec

end InheritanceType

/-- How many objects an end or a parameter stands for. -/
inductive Multiplicity where
  | zeroToOne | oneToOne | zeroToMany | oneToMany
  deriving DecidableEq, Repr, Inhabited

namespace Multiplicity

instance : Vocabulary Multiplicity where
  title := "multiplicity"
  all := [zeroToOne, oneToOne, zeroToMany, oneToMany]
  keyword
    | zeroToOne => "0..1"
    | oneToOne => "1..1"
    | zeroToMany => "0..*"
    | oneToMany => "1..*"
  name
    | zeroToOne => "ZeroToOne"
    | oneToOne => "OneToOne"
    | zeroToMany => "ZeroToMany"
    | oneToMany => "OneToMany"

instance : Codec Multiplicity := Vocabulary.codec

/-- At most one object. -/
def isToOne (multiplicity : Multiplicity) : Bool :=
  multiplicity ∈ [zeroToOne, oneToOne]

/-- Possibly more than one object. -/
def isToMany (multiplicity : Multiplicity) : Bool :=
  !multiplicity.isToOne

/-- At least one object. -/
def isRequired (multiplicity : Multiplicity) : Bool :=
  multiplicity ∈ [oneToOne, oneToMany]

end Multiplicity

/-- The comparisons of criteria. -/
inductive Operator where
  | equal | notEqual | lessThan | greaterThan | lessThanOrEqual | greaterThanOrEqual
  | inList | contains | startsWith | endsWith
  deriving DecidableEq, Repr, Inhabited

namespace Operator

instance : Vocabulary Operator where
  title := "operator"
  all := [equal, notEqual, lessThan, greaterThan, lessThanOrEqual, greaterThanOrEqual,
    inList, contains, startsWith, endsWith]
  keyword
    | equal => "=="
    | notEqual => "!="
    | lessThan => "<"
    | greaterThan => ">"
    | lessThanOrEqual => "<="
    | greaterThanOrEqual => ">="
    | inList => "in"
    | contains => "contains"
    | startsWith => "startsWith"
    | endsWith => "endsWith"
  name
    | equal => "Equal"
    | notEqual => "NotEqual"
    | lessThan => "LessThan"
    | greaterThan => "GreaterThan"
    | lessThanOrEqual => "LessThanOrEqual"
    | greaterThanOrEqual => "GreaterThanOrEqual"
    | inList => "In"
    | contains => "Contains"
    | startsWith => "StartsWith"
    | endsWith => "EndsWith"

instance : Codec Operator := Vocabulary.codec

/-- Whether the comparison can join two classes. -/
def isEquality (operator : Operator) : Bool :=
  operator = equal

end Operator

/-- The clauses that restrict a service. -/
inductive ClauseKind where
  | criteria | authorize | validate | conflict | version
  deriving DecidableEq, Repr, Inhabited

namespace ClauseKind

instance : Vocabulary ClauseKind where
  title := "service criteria"
  all := [criteria, authorize, validate, conflict, version]
  keyword
    | criteria => "criteria"
    | authorize => "authorize"
    | validate => "validate"
    | conflict => "conflict"
    | version => "version"
  name
    | criteria => "Criteria"
    | authorize => "Authorize"
    | validate => "Validate"
    | conflict => "Conflict"
    | version => "Version"

instance : Codec ClauseKind := Vocabulary.codec

end ClauseKind

/-- The requests a service answers. -/
inductive Verb where
  | get | post | put | patch | delete
  deriving DecidableEq, Repr, Inhabited

namespace Verb

instance : Vocabulary Verb where
  title := "verb"
  all := [get, post, put, patch, delete]
  keyword
    | get => "GET"
    | post => "POST"
    | put => "PUT"
    | patch => "PATCH"
    | delete => "DELETE"
  name
    | get => "Get"
    | post => "Post"
    | put => "Put"
    | patch => "Patch"
    | delete => "Delete"

instance : Codec Verb := Vocabulary.codec

/-- The clauses a service with this verb may declare. -/
def allowedClauses : Verb → List ClauseKind
  | get => [.criteria, .authorize, .version]
  | post => [.authorize, .validate]
  | put | patch | delete => [.criteria, .authorize, .validate, .conflict, .version]

end Verb

/-- Whether a service answers with one object or with many. -/
inductive ServiceMultiplicity where
  | one | many
  deriving DecidableEq, Repr, Inhabited

namespace ServiceMultiplicity

instance : Vocabulary ServiceMultiplicity where
  title := "service multiplicity"
  all := [one, many]
  keyword
    | one => "one"
    | many => "many"
  name
    | one => "One"
    | many => "Many"

instance : Codec ServiceMultiplicity := Vocabulary.codec

end ServiceMultiplicity

/-- The direction of one member of an ordering. -/
inductive SortDirection where
  | ascending | descending
  deriving DecidableEq, Repr, Inhabited

namespace SortDirection

instance : Vocabulary SortDirection where
  title := "sort direction"
  all := [ascending, descending]
  keyword
    | ascending => "ascending"
    | descending => "descending"
  name
    | ascending => "Ascending"
    | descending => "Descending"

instance : Codec SortDirection := Vocabulary.codec

end SortDirection

/-- The bounds a property can be given. -/
inductive ValidationKind where
  | minLength | maxLength | min | max
  deriving DecidableEq, Repr, Inhabited

namespace ValidationKind

instance : Vocabulary ValidationKind where
  title := "validation"
  all := [minLength, maxLength, min, max]
  keyword
    | minLength => "minLength"
    | maxLength => "maxLength"
    | min => "min"
    | max => "max"
  name
    | minLength => "MinLength"
    | maxLength => "MaxLength"
    | min => "Min"
    | max => "Max"

instance : Codec ValidationKind := Vocabulary.codec

end ValidationKind

/-- How the two classes of an association are joined. -/
inductive JoinKind where
  /-- Through foreign keys alone. -/
  | direct
  /-- Through a condition that has to be evaluated. -/
  | predicate
  deriving DecidableEq, Repr, Inhabited

namespace JoinKind

/-- The name in JSON. -/
def name : JoinKind → String
  | direct => "Direct"
  | predicate => "Predicate"

instance : Codec JoinKind where
  encode kind := .text kind.name
  decode json := json.word?.bind fun word => [direct, predicate].find? (·.name = word)

end JoinKind
end DomainLang
