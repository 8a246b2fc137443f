import DomainLang.Program.Index
import DomainLang.Resolution
import DomainLang.Syntax.Criteria

/-!
# Criteria with names looked up

The shape is that of the criteria as written. Every name carries the outcome of
its lookup, so that a failure can be reported at the place of the name.
-/

namespace DomainLang.Resolved

open Syntax (Identifier)

/-- Where a member path starts. -/
inductive Origin where
  /-- At the classifier that the criteria are about. -/
  | this
  /-- At a classifier given by name. -/
  | type (name : Identifier)
  deriving DecidableEq, Repr, Inhabited

/-- A step of a member path along an association end. -/
structure Hop where
  name : Identifier
  target : Resolution AssociationEndIndex
  deriving DecidableEq, Repr, Inhabited

/-- A property reached from a classifier along association ends. -/
structure MemberPath where
  origin : Origin
  classifier : Resolution ClassifierIndex
  hops : List Hop
  member : Identifier
  property : Resolution PropertyIndex
  /-- The unit the path was written in. -/
  unit : UnitId
  span : Span
  deriving DecidableEq, Repr, Inhabited

/-- An operand of a comparison. -/
inductive Value where
  | member (path : MemberPath)
  | variable (name : Identifier) (parameter : Resolution ParameterIndex)
  | literal (constant : Literal) (span : Span)
  | literals (constants : List Literal) (span : Span)
  | user (span : Span)
  deriving DecidableEq, Repr, Inhabited

/-- A condition on the instances of a classifier. -/
inductive Criteria where
  | all (span : Span)
  | and (left right : Criteria)
  | or (left right : Criteria)
  | operator (source : Value) (comparison : Operator) (target : Value) (span : Span)
  | edgePoint (path : MemberPath) (span : Span)
  deriving DecidableEq, Repr, Inhabited

/-- One key of an ordering. -/
structure OrderByMember where
  path : MemberPath
  direction : SortDirection
  deriving DecidableEq, Repr, Inhabited

/-- An ordering by properties. -/
structure OrderBy where
  members : List OrderByMember
  span : Span
  deriving DecidableEq, Repr, Inhabited

namespace Origin

/-- The origin as it is written. -/
def text : Origin → String
  | this => "this"
  | type name => name.name

end Origin

namespace MemberPath

/-- Whether the path starts at the classifier that the criteria are about. -/
def isThis (path : MemberPath) : Bool :=
  path.origin = .this

/-- Whether every name of the path resolved. -/
def isResolved (path : MemberPath) : Bool :=
  path.classifier.isResolved && path.hops.all (·.target.isResolved) && path.property.isResolved

/-- The path as it is written. -/
def text (path : MemberPath) : String :=
  ".".intercalate
    (path.origin.text :: path.hops.map (·.name.name) ++ [path.member.name])

end MemberPath

namespace Value

/-- The member path, for an operand that is one. -/
def path? : Value → Option MemberPath
  | member path => some path
  | _ => none

/-- The variable and its parameter, for an operand that is one. -/
def parameterUse? : Value → Option (Identifier × Resolution ParameterIndex)
  | .variable name parameter => some (name, parameter)
  | _ => none

/-- Whether the operand is a list of literals. -/
def isList : Value → Bool
  | literals _ _ => true
  | _ => false

end Value

namespace Criteria

/-- The criteria and all its parts, each before its own parts. -/
def expressions : Criteria → List Criteria
  | criteria@(and left right) => criteria :: (left.expressions ++ right.expressions)
  | criteria@(or left right) => criteria :: (left.expressions ++ right.expressions)
  | criteria => [criteria]

/-- The member paths of one expression, without those of its parts. -/
def ownPaths : Criteria → List MemberPath
  | operator source _ target _ => [source, target].filterMap Value.path?
  | edgePoint path _ => [path]
  | all _ | and _ _ | or _ _ => []

/-- The member paths in the order in which they are written. -/
def memberPaths (criteria : Criteria) : List MemberPath :=
  criteria.expressions.flatMap ownPaths

/-- The uses of parameters in one expression, without those of its parts. -/
def ownParameterUses : Criteria → List (Identifier × Resolution ParameterIndex)
  | operator source _ target _ => [source, target].filterMap Value.parameterUse?
  | edgePoint _ _ | all _ | and _ _ | or _ _ => []

/-- The uses of parameters in the order in which they are written. -/
def parameterUses (criteria : Criteria) : List (Identifier × Resolution ParameterIndex) :=
  criteria.expressions.flatMap ownParameterUses

end Criteria
end DomainLang.Resolved
