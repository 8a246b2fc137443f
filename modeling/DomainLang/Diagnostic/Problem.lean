import DomainLang.Diagnostic.Kind
import DomainLang.Vocabulary

/-!
# Problems

A `Problem` is what an analysis found, with the names it is about. Its kind and
its wording are functions of it, so that every message is written down once.
-/

namespace DomainLang

/-- What can be wrong with a program. -/
inductive Problem where
  -- Declarations that must be unique
  | duplicateTopLevel (name kindName : String)
  | duplicateUser (name : String)
  | duplicateMember (owner name : String)
  | duplicateModifier (modifier : Modifier) (owner : String)
  | duplicateInterface (interface owner : String)
  | multipleMarked (modifier : Modifier) (owner property : String)
  | multipleVersions (owner name : String)
  | duplicateValidation (kind : ValidationKind) (property : String)
  | duplicateLiteral (owner name : String)
  | duplicateServiceGroup (klass : String)
  | duplicateUrl (url group : String)
  | duplicateParameter (name url : String)
  | duplicateClause (kind : ClauseKind)
  | duplicateProjectionMember (path : String)
  -- Spelling of names
  | packageName (name : String)
  | topLevelName (kindName name : String)
  | memberName (name : String)
  | endName (name : String)
  -- Classes
  | missingKey (klass : String)
  | keysAndIds (klass : String)
  | transientId (klass property : String)
  | versionAndVersioned (klass version versioned : String)
  -- Inheritance and types
  | implementsOther (classifier name kindName : String)
  | forwardInterface (classifier interface : String)
  | redundantInterface (interface classifier : String)
  | interfaceCycle (interface : String)
  | superclassCycle (klass superclass : String)
  | extendsOther (klass name kindName : String)
  | unknownType (what name : String)
  -- Properties
  | fromAndTo (property : String)
  | endpointWithoutFamily (property : String)
  | endpointType (property type : String)
  | rangeType (property type : String)
  | auditKey (property : String)
  | auditNotPrivate (property : String)
  | auditType (modifier : Modifier) (property : String) (expected : Primitive) (type : String)
  | auditWithoutUserId (modifier : Modifier) (property : String)
  | createdByName (property expected : String)
  | lastUpdatedByName (property expected : String)
  | versionType (property type : String)
  | userIdType (property type : String)
  | unexplainedUserId (property : String)
  | unreferencedPrivate (property : String)
  -- Criteria, orderings and foreign keys
  | unknownMemberType (name : String)
  | unknownHop (name : String)
  | unknownThisMember (path : String)
  | unknownTypeMember (path : String)
  | unknownVariable (name : String)
  | misusedOperator (operator : Operator)
  | orderedToOne (associationEnd : String) (multiplicity : Multiplicity)
  | orderedThroughEnd (member associationEnd : String)
  | optionalForRequired (associationEnd property : String)
  | requiredForOptional (associationEnd property : String)
  -- Projections
  | unknownProjectionProperty (name owner : String)
  | unknownProjectionEnd (name owner : String)
  | ambiguousProjectionEnd (name owner : String)
  | projectionMismatch (projection projected reference target : String)
  -- Services
  | serviceOnOther (group klass kindName : String)
  | serviceOnUnknown (group klass : String)
  | forwardServiceClass (group klass : String)
  | emptyServiceGroup (group : String)
  | clauseNotAllowed (verb : Verb) (kind : ClauseKind)
  | unknownServiceProjection (name : String)
  | serviceProjectionMismatch (projection projected klass : String)
  deriving DecidableEq, Repr

namespace Problem

/-- The kind in the catalogue. -/
def kind : Problem → ProblemKind
  | duplicateTopLevel _ _ => .duplicateTopLevel
  | duplicateUser _ => .duplicateUser
  | duplicateMember _ _ => .duplicateMember
  | duplicateModifier _ _ => .duplicateModifier
  | duplicateInterface _ _ => .duplicateInterface
  | multipleMarked _ _ _ => .duplicateModifier
  | multipleVersions _ _ => .duplicateVersion
  | duplicateValidation _ _ => .duplicateValidation
  | duplicateLiteral _ _ => .duplicateLiteral
  | duplicateServiceGroup _ => .duplicateServiceGroup
  | duplicateUrl _ _ => .duplicateUrl
  | duplicateParameter _ _ => .duplicateParameter
  | duplicateClause _ => .duplicateCriteria
  | duplicateProjectionMember _ => .duplicateProjectionMember
  | packageName _ => .packageName
  | topLevelName _ _ => .topLevelName
  | memberName _ => .memberName
  | endName _ => .endName
  | missingKey _ => .missingKey
  | keysAndIds _ => .keysAndIds
  | transientId _ _ => .transientId
  | versionAndVersioned _ _ _ => .versionAndVersioned
  | implementsOther _ _ _ => .implementsNonInterface
  | forwardInterface _ _ => .forwardReference
  | redundantInterface _ _ => .redundantInterface
  | interfaceCycle _ => .circularInheritance
  | superclassCycle _ _ => .circularInheritance
  | extendsOther _ _ _ => .extendsNonClass
  | unknownType _ _ => .unresolvedType
  | fromAndTo _ => .temporalFromAndTo
  | endpointWithoutFamily _ => .temporalEndpointFamily
  | endpointType _ _ => .temporalInstantType
  | rangeType _ _ => .temporalRangeType
  | auditKey _ => .auditKey
  | auditNotPrivate _ => .auditPrivate
  | auditType _ _ _ _ => .auditDataType
  | auditWithoutUserId _ _ => .auditUserId
  | createdByName _ _ => .createdByName
  | lastUpdatedByName _ _ => .lastUpdatedByName
  | versionType _ _ => .versionDataType
  | userIdType _ _ => .userIdDataType
  | unexplainedUserId _ => .auditUserId
  | unreferencedPrivate _ => .unreferencedPrivate
  | unknownMemberType _ => .unresolvedMemberType
  | unknownHop _ => .unresolvedHop
  | unknownThisMember _ => .unresolvedThisMember
  | unknownTypeMember _ => .unresolvedTypeMember
  | unknownVariable _ => .unresolvedVariable
  | misusedOperator _ => .inOperator
  | orderedToOne _ _ => .toOneOrderBy
  | orderedThroughEnd _ _ => .orderByHop
  | optionalForRequired _ _ => .foreignKeyMultiplicity
  | requiredForOptional _ _ => .optionalForeignKey
  | unknownProjectionProperty _ _ => .projectionProperty
  | unknownProjectionEnd _ _ => .projectionEndNotFound
  | ambiguousProjectionEnd _ _ => .projectionEndAmbiguous
  | projectionMismatch _ _ _ _ => .projectionReferenceClass
  | serviceOnOther _ _ _ => .unresolvedServiceGroupType
  | serviceOnUnknown _ _ => .unresolvedServiceGroupType
  | forwardServiceClass _ _ => .forwardReference
  | emptyServiceGroup _ => .emptyServiceGroup
  | clauseNotAllowed _ _ => .verbCriteria
  | unknownServiceProjection _ => .serviceProjection
  | serviceProjectionMismatch _ _ _ => .serviceProjection

/-- The pieces of the wording. -/
def pieces : Problem → List String
  | duplicateTopLevel name kindName =>
    ["Duplicate top level item name: '", name, "' (", kindName, ")"]
  | duplicateUser name => ["Only one 'user' class is allowed, found '", name, "'"]
  | duplicateMember owner name => ["Duplicate member: '", owner, ".", name, "'"]
  | duplicateModifier modifier owner =>
    ["Duplicate modifier '", keyword modifier, "' on '", owner, "'"]
  | duplicateInterface interface owner =>
    ["Duplicate interface '", interface, "' implemented by '", owner, "'"]
  | multipleMarked modifier owner property =>
    ["Multiple '", keyword modifier, "' properties on '", owner, "': '", property, "'"]
  | multipleVersions owner name => ["Multiple version members on '", owner, "': '", name, "'"]
  | duplicateValidation kind property =>
    ["Duplicate validation '", keyword kind, "' on '", property, "'"]
  | duplicateLiteral owner name => ["Duplicate enumeration literal '", owner, ".", name, "'"]
  | duplicateServiceGroup klass => ["Multiple service groups for class '", klass, "'"]
  | duplicateUrl url group => ["Duplicate url '", url, "' in '", group, "'"]
  | duplicateParameter name url => ["Duplicate parameter '", name, "' in url '", url, "'"]
  | duplicateClause kind => ["Duplicate '", keyword kind, "' clause"]
  | duplicateProjectionMember path => ["Duplicate projection member '", path, "'"]
  | packageName name => ["Invalid package name '", name, "'"]
  | topLevelName kindName name =>
    ["Name must match pattern UpperCamelCase: ", kindName, " '", name, "'"]
  | memberName name | endName name => ["Name must match pattern lowerCamelCase: '", name, "'"]
  | missingKey klass => ["Class '", klass, "' must have at least one key property"]
  | keysAndIds klass =>
    ["Class '", klass, "' may not have both id properties and non-id key properties"]
  | transientId klass property =>
    ["Transient class '", klass, "' may not have id property '", property, "'"]
  | versionAndVersioned klass version versioned =>
    ["Class '", klass, "' may not have both version end '", version, "' and versioned end '",
      versioned, "'"]
  | implementsOther classifier name kindName =>
    ["'", classifier, "' implements '", name, "', which is a ", kindName, " and not an interface"]
  | forwardInterface classifier interface =>
    ["'", classifier, "' implements '", interface, "', which is declared later in the same file"]
  | redundantInterface interface classifier =>
    ["'", interface, "' is already implemented by a parent of '", classifier, "'"]
  | interfaceCycle interface => ["Interface '", interface, "' implements itself"]
  | superclassCycle klass superclass =>
    ["Class '", klass, "' extends '", superclass, "', which inherits from '", klass, "'"]
  | extendsOther klass name kindName =>
    ["Class '", klass, "' extends '", name, "', which is a ", kindName, " and not a class"]
  | unknownType what name => ["Cannot find ", what, " '", name, "'"]
  | fromAndTo property => ["Property '", property, "' may not be both 'from' and 'to'"]
  | endpointWithoutFamily property =>
    ["Temporal endpoint '", property, "' must also be marked 'valid' or 'system'"]
  | endpointType property type =>
    ["Temporal endpoint '", property, "' must be TemporalInstant, not ", type]
  | rangeType property type =>
    ["Temporal property '", property, "' must be TemporalRange, not ", type]
  | auditKey property => ["Audit property '", property, "' may not be a key"]
  | auditNotPrivate property => ["Audit property '", property, "' must be private"]
  | auditType modifier property expected type =>
    ["'", keyword modifier, "' property '", property, "' must be ", keyword expected, ", not ",
      type]
  | auditWithoutUserId modifier property =>
    ["'", keyword modifier, "' property '", property, "' must also be 'userId'"]
  | createdByName property expected =>
    ["'createdBy' property '", property, "' should be named '", expected, "'"]
  | lastUpdatedByName property expected =>
    ["'lastUpdatedBy' property '", property, "' should be named '", expected, "'"]
  | versionType property type =>
    ["Version property '", property, "' must be Integer or Long, not ", type]
  | userIdType property type => ["userId property '", property, "' must be String, not ", type]
  | unexplainedUserId property =>
    ["userId property '", property, "' must also be a key, 'createdBy' or 'lastUpdatedBy'"]
  | unreferencedPrivate property => ["Private property '", property, "' is never referenced"]
  | unknownMemberType name => ["Cannot find classifier '", name, "'"]
  | unknownHop name => ["Cannot find association end '", name, "'"]
  | unknownThisMember path | unknownTypeMember path => ["Cannot find member '", path, "'"]
  | unknownVariable name => ["Cannot find parameter '", name, "'"]
  | misusedOperator operator =>
    ["Operator '", keyword operator,
      "' cannot be used with these operands; 'in' requires a literal list or a variable"]
  | orderedToOne associationEnd multiplicity =>
    ["Association end '", associationEnd, "' is to-one (", keyword multiplicity,
      ") and cannot be ordered"]
  | orderedThroughEnd member associationEnd =>
    ["Order by '", member, "' goes through association end '", associationEnd,
      "'; only direct properties can be ordered by"]
  | optionalForRequired associationEnd property =>
    ["Association end '", associationEnd, "' is required but foreign key '", property,
      "' is optional"]
  | requiredForOptional associationEnd property =>
    ["Association end '", associationEnd, "' is optional but foreign key '", property,
      "' is required"]
  | unknownProjectionProperty name owner => ["Cannot find property '", name, "' on '", owner, "'"]
  | unknownProjectionEnd name owner => ["Cannot find association end '", name, "' on '", owner, "'"]
  | ambiguousProjectionEnd name owner =>
    ["Association end '", name, "' on '", owner, "' is ambiguous"]
  | projectionMismatch projection projected reference target =>
    ["Projection '", projection, "' is on '", projected, "', but '", reference, "' navigates to '",
      target, "'"]
  | serviceOnOther group klass kindName =>
    ["Service group '", group, "' is on '", klass, "', which is a ", kindName, " and not a class"]
  | serviceOnUnknown group klass =>
    ["Service group '", group, "' is on unknown class '", klass, "'"]
  | forwardServiceClass group klass =>
    ["Service group '", group, "' refers to class '", klass,
      "', which is declared later in the same file"]
  | emptyServiceGroup group => ["Service group '", group, "' must declare at least one url"]
  | clauseNotAllowed verb kind =>
    ["A ", keyword verb, " service may not declare '", keyword kind, "' criteria"]
  | unknownServiceProjection name => ["Cannot find projection '", name, "'"]
  | serviceProjectionMismatch projection projected klass =>
    ["Projection '", projection, "' is on '", projected, "', not on '", klass,
      "' or one of its supertypes"]

/-- The wording. -/
def message (problem : Problem) : String :=
  String.join problem.pieces

end Problem
end DomainLang
