import DomainLang.Literal
import DomainLang.Model.Id
import DomainLang.Vocabulary

/-!
# Criteria of a model

Every name of the criteria is replaced by the id of what it means.
-/

namespace DomainLang.Model

/-- A property reached from a classifier along association ends. -/
structure MemberPath where
  classifier : ClassifierId
  hops : List AssociationEndId
  property : PropertyId
  deriving DecidableEq, Repr, Inhabited

/-- An operand of a comparison. -/
inductive Value where
  | thisMember (path : MemberPath)
  | typeMember (path : MemberPath)
  | variable (parameter : ParameterId)
  | literal (constant : Literal)
  | literals (constants : List Literal)
  | user
  deriving DecidableEq, Repr, Inhabited

/-- A condition on the instances of a class. -/
inductive Criteria where
  | all
  | and (left right : Criteria)
  | or (left right : Criteria)
  | operator (source : Value) (comparison : Operator) (target : Value)
  | edgePoint (path : MemberPath)
  deriving DecidableEq, Repr, Inhabited

/-- One key of an ordering. -/
structure OrderByMember where
  path : MemberPath
  direction : SortDirection
  deriving DecidableEq, Repr, Inhabited

/-- An ordering by properties. -/
structure OrderBy where
  members : List OrderByMember
  deriving DecidableEq, Repr, Inhabited

instance : Codec MemberPath where
  encode path := .object [("classifier", encode path.classifier), ("hops", encode path.hops),
    ("property", encode path.property)]
  decode json := do
    let [classifier, hops, property] ←
      json.components? ["classifier", "hops", "property"] | none
    return ⟨← Codec.required classifier, ← Codec.required hops, ← Codec.required property⟩

namespace Value

/-- The member path, for an operand that is one. -/
def path? : Value → Option MemberPath
  | thisMember path => some path
  | typeMember path => some path
  | _ => none

instance : Codec Value where
  encode
    | thisMember path => .tagged "ThisMember" (encode path)
    | typeMember path => .tagged "TypeMember" (encode path)
    | .variable parameter => .tagged "Variable" (encode parameter)
    | literal constant => .tagged "Literal" (encode constant)
    | literals constants => .tagged "LiteralList" (encode constants)
    | user => .text "User"
  decode json :=
    match json.alternative? with
    | some ("ThisMember", some content) => (decode content).map thisMember
    | some ("TypeMember", some content) => (decode content).map typeMember
    | some ("Variable", some content) => (decode content).map .variable
    | some ("Literal", some content) => (decode content).map literal
    | some ("LiteralList", some content) => (decode content).map literals
    | some ("User", none) | some ("User", some .null) => some user
    | _ => none

end Value

namespace Criteria

/-- The criteria and all its parts, each before its own parts. -/
def expressions : Criteria → List Criteria
  | .and left right => .and left right :: (left.expressions ++ right.expressions)
  | .or left right => .or left right :: (left.expressions ++ right.expressions)
  | criteria => [criteria]

/-- The member paths of one expression, without those of its parts. -/
def ownPaths : Criteria → List MemberPath
  | operator source _ target => [source, target].filterMap Value.path?
  | edgePoint path => [path]
  | all | .and _ _ | .or _ _ => []

/-- The member paths, left to right. -/
def memberPaths (criteria : Criteria) : List MemberPath :=
  criteria.expressions.flatMap ownPaths

def toJson : Criteria → Json
  | all => .text "All"
  | .and left right => .tagged "And" (.list [left.toJson, right.toJson])
  | .or left right => .tagged "Or" (.list [left.toJson, right.toJson])
  | operator source comparison target =>
    .tagged "Operator" (.object [("source", encode source), ("operator", encode comparison),
      ("target", encode target)])
  | edgePoint path => .tagged "EdgePoint" (encode path)

/-- Read criteria that nest at most `levels` deep. -/
def ofJson? : (levels : Nat) → Json → Option Criteria
  | 0, _ => none
  | levels + 1, json =>
    match json.alternative? with
    | some ("All", none) | some ("All", some .null) => some all
    | some ("And", some (.list [left, right])) => do
      return .and (← ofJson? levels left) (← ofJson? levels right)
    | some ("Or", some (.list [left, right])) => do
      return .or (← ofJson? levels left) (← ofJson? levels right)
    | some ("Operator", some content) => do
      let [source, comparison, target] ←
        content.components? ["source", "operator", "target"] | none
      return operator (← Codec.required source) (← Codec.required comparison)
        (← Codec.required target)
    | some ("EdgePoint", some content) => (decode content).map edgePoint
    | _ => none

instance : Codec Criteria where
  encode := toJson
  decode json := ofJson? (json.depth + 1) json

end Criteria

instance : Codec OrderByMember where
  encode member := .object [("path", encode member.path), ("direction", encode member.direction)]
  decode json := do
    let [path, direction] ← json.components? ["path", "direction"] | none
    return ⟨← Codec.required path, ← Codec.required direction⟩

instance : Codec OrderBy where
  encode ordering := .object [("members", encode ordering.members)]
  decode json := do
    let [members] ← json.components? ["members"] | none
    return ⟨← Codec.required members⟩

end DomainLang.Model
