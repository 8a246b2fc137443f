/-!
# Kinds of problems

Every problem has a kind with a stable code. The codes of warnings start with
`WRN_`; every other kind is an error.
-/

namespace DomainLang

inductive ProblemKind where
  | duplicateTopLevel | duplicateUser | missingKey | versionAndVersioned | duplicateVersion
  | keysAndIds | transientId | duplicateMember | duplicateModifier | duplicateValidation
  | implementsNonInterface | duplicateInterface | redundantInterface | forwardReference
  | circularInheritance | extendsNonClass | unresolvedType | unresolvedMemberType
  | unresolvedTypeMember | unresolvedThisMember | unresolvedHop | temporalRangeType
  | temporalEndpointFamily | temporalInstantType | temporalFromAndTo | auditKey | auditDataType
  | auditUserId | auditPrivate | versionDataType | userIdDataType | foreignKeyMultiplicity
  | toOneOrderBy | orderByHop | unresolvedServiceGroupType | duplicateUrl | emptyServiceGroup
  | duplicateServiceGroup | duplicateCriteria | verbCriteria | unresolvedVariable
  | duplicateParameter | serviceProjection | duplicateProjectionMember | projectionEndNotFound
  | projectionEndAmbiguous | projectionReferenceClass | projectionProperty | inOperator
  | topLevelName | memberName | endName | packageName | duplicateLiteral
  | unreferencedPrivate | createdByName | lastUpdatedByName | optionalForeignKey
  deriving DecidableEq, Repr, Inhabited

namespace ProblemKind

/-- Every kind, in the order of the catalogue. -/
def all : List ProblemKind :=
  [duplicateTopLevel, duplicateUser, missingKey, versionAndVersioned, duplicateVersion,
    keysAndIds, transientId, duplicateMember, duplicateModifier, duplicateValidation,
    implementsNonInterface, duplicateInterface, redundantInterface, forwardReference,
    circularInheritance, extendsNonClass, unresolvedType, unresolvedMemberType,
    unresolvedTypeMember, unresolvedThisMember, unresolvedHop, temporalRangeType,
    temporalEndpointFamily, temporalInstantType, temporalFromAndTo, auditKey, auditDataType,
    auditUserId, auditPrivate, versionDataType, userIdDataType, foreignKeyMultiplicity,
    toOneOrderBy, orderByHop, unresolvedServiceGroupType, duplicateUrl, emptyServiceGroup,
    duplicateServiceGroup, duplicateCriteria, verbCriteria, unresolvedVariable,
    duplicateParameter, serviceProjection, duplicateProjectionMember, projectionEndNotFound,
    projectionEndAmbiguous, projectionReferenceClass, projectionProperty, inOperator,
    topLevelName, memberName, endName, packageName, duplicateLiteral,
    unreferencedPrivate, createdByName, lastUpdatedByName, optionalForeignKey]

/-- The stable code. -/
def code : ProblemKind → String
  | duplicateTopLevel => "ERR_DUP_TOP"
  | duplicateUser => "ERR_DUP_USR"
  | missingKey => "ERR_CLS_KEY"
  | versionAndVersioned => "ERR_VER_VER"
  | duplicateVersion => "ERR_DUP_VER"
  | keysAndIds => "ERR_KEY_IDS"
  | transientId => "ERR_TNS_IDP"
  | duplicateMember => "ERR_DUP_MEM"
  | duplicateModifier => "ERR_DUP_MOD"
  | duplicateValidation => "ERR_DUP_VAL"
  | implementsNonInterface => "ERR_IMP_INT"
  | duplicateInterface => "ERR_DUP_INT"
  | redundantInterface => "ERR_RED_INT"
  | forwardReference => "ERR_FWD_REF"
  | circularInheritance => "ERR_CIR_INH"
  | extendsNonClass => "ERR_EXT_INT"
  | unresolvedType => "ERR_REF_TYP"
  | unresolvedMemberType => "ERR_MEM_TYP"
  | unresolvedTypeMember => "ERR_TYP_MEM"
  | unresolvedThisMember => "ERR_THS_MEM"
  | unresolvedHop => "ERR_HOP_END"
  | temporalRangeType => "ERR_TMP_RNG"
  | temporalEndpointFamily => "ERR_TMP_SYS"
  | temporalInstantType => "ERR_TMP_INS"
  | temporalFromAndTo => "ERR_TMP_FTO"
  | auditKey => "ERR_AUD_KEY"
  | auditDataType => "ERR_AUD_DTP"
  | auditUserId => "ERR_AUD_UID"
  | auditPrivate => "ERR_AUD_PRI"
  | versionDataType => "ERR_VER_DTP"
  | userIdDataType => "ERR_USR_DTP"
  | foreignKeyMultiplicity => "ERR_FOR_MUL"
  | toOneOrderBy => "ERR_REF_ORD"
  | orderByHop => "ERR_ORD_HOP"
  | unresolvedServiceGroupType => "ERR_SRG_TYP"
  | duplicateUrl => "ERR_DUP_URL"
  | emptyServiceGroup => "ERR_SER_EMP"
  | duplicateServiceGroup => "ERR_DUP_SVC"
  | duplicateCriteria => "ERR_DUP_CRI"
  | verbCriteria => "ERR_VRB_CRT"
  | unresolvedVariable => "ERR_VAR_REF"
  | duplicateParameter => "ERR_DUP_PAR"
  | serviceProjection => "ERR_SVC_PRJ"
  | duplicateProjectionMember => "ERR_DUP_PRJ"
  | projectionEndNotFound => "ERR_PAE_NFD"
  | projectionEndAmbiguous => "ERR_PAE_AMB"
  | projectionReferenceClass => "ERR_PRR_KLS"
  | projectionProperty => "ERR_PRJ_DTP"
  | inOperator => "ERR_OPR_IN"
  | topLevelName => "ERR_TOP_NME"
  | memberName => "ERR_MEM_NME"
  | endName => "ERR_END_NME"
  | packageName => "ERR_PKG_NME"
  | duplicateLiteral => "ERR_DUP_LIT"
  | unreferencedPrivate => "WRN_PRV_UNR"
  | createdByName => "WRN_CRT_NAM"
  | lastUpdatedByName => "WRN_LUB_NAM"
  | optionalForeignKey => "WRN_FOR_OPT"

/-- The name in words. -/
def name : ProblemKind → String
  | duplicateTopLevel => "duplicate top-level name"
  | duplicateUser => "duplicate user class"
  | missingKey => "missing key"
  | versionAndVersioned => "version and versioned"
  | duplicateVersion => "duplicate version"
  | keysAndIds => "keys mixed with ids"
  | transientId => "id on transient class"
  | duplicateMember => "duplicate member"
  | duplicateModifier => "duplicate modifier"
  | duplicateValidation => "duplicate validation"
  | implementsNonInterface => "implements non-interface"
  | duplicateInterface => "duplicate interface"
  | redundantInterface => "redundant interface"
  | forwardReference => "forward reference"
  | circularInheritance => "circular inheritance"
  | extendsNonClass => "extends non-class"
  | unresolvedType => "unresolved type"
  | unresolvedMemberType => "unresolved member type"
  | unresolvedTypeMember => "unresolved type member"
  | unresolvedThisMember => "unresolved this member"
  | unresolvedHop => "unresolved association end hop"
  | temporalRangeType => "invalid temporal range"
  | temporalEndpointFamily => "invalid temporal family"
  | temporalInstantType => "invalid temporal instant"
  | temporalFromAndTo => "temporal from and to"
  | auditKey => "audit property is key"
  | auditDataType => "invalid audit data type"
  | auditUserId => "invalid user id usage"
  | auditPrivate => "audit property not private"
  | versionDataType => "invalid version data type"
  | userIdDataType => "invalid user id data type"
  | foreignKeyMultiplicity => "foreign key multiplicity"
  | toOneOrderBy => "order-by on to-one end"
  | orderByHop => "order-by through hops"
  | unresolvedServiceGroupType => "unresolved service group type"
  | duplicateUrl => "duplicate url"
  | emptyServiceGroup => "empty service group"
  | duplicateServiceGroup => "duplicate service group"
  | duplicateCriteria => "duplicate service criteria"
  | verbCriteria => "criteria not allowed for verb"
  | unresolvedVariable => "unresolved variable"
  | duplicateParameter => "duplicate parameter"
  | serviceProjection => "invalid service projection"
  | duplicateProjectionMember => "duplicate projection member"
  | projectionEndNotFound => "projection end not found"
  | projectionEndAmbiguous => "ambiguous projection end"
  | projectionReferenceClass => "projection reference class"
  | projectionProperty => "projection property not found"
  | inOperator => "invalid in operator"
  | topLevelName => "invalid top-level name"
  | memberName => "invalid member name"
  | endName => "invalid association end name"
  | packageName => "invalid package name"
  | duplicateLiteral => "duplicate enumeration literal"
  | unreferencedPrivate => "unreferenced private property"
  | createdByName => "createdBy property name"
  | lastUpdatedByName => "lastUpdatedBy property name"
  | optionalForeignKey => "optional foreign key end"

/-- Whether problems of the kind are warnings. -/
def isWarning : ProblemKind → Bool
  | unreferencedPrivate | createdByName | lastUpdatedByName | optionalForeignKey => true
  | _ => false

end ProblemKind
end DomainLang
