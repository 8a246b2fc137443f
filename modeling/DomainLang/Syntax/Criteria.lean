import DomainLang.Literal
import DomainLang.Syntax.Node
import DomainLang.Vocabulary

/-!
# Criteria, member paths and orderings as written

Criteria are boolean trees over comparisons of two values and tests of a
temporal edge point. A member path starts at `this` or at a named classifier,
follows the names of association ends and ends in the name of a property.
-/

namespace DomainLang.Syntax

/-- A path that starts at the object the criteria are about. -/
structure ThisPath extends Node where
  hops : List Identifier
  member : Identifier
  deriving DecidableEq, Repr, Inhabited

/-- A path that starts at a named classifier. -/
structure TypePath extends Node where
  classifier : Identifier
  hops : List Identifier
  member : Identifier
  deriving DecidableEq, Repr, Inhabited

/-- A constant in an expression. -/
structure LiteralNode extends Node where
  value : Literal
  deriving DecidableEq, Repr, Inhabited

/-- One side of a comparison. -/
inductive Value where
  | thisMember (path : ThisPath)
  | typeMember (path : TypePath)
  | variable (node : Node) (name : Identifier)
  | literal (constant : LiteralNode)
  | literalList (node : Node) (values : List LiteralNode)
  | user (node : Node)
  deriving DecidableEq, Repr, Inhabited

/-- An operator where it was written. -/
structure OperatorMark where
  span : Span
  kind : Operator
  deriving DecidableEq, Repr, Inhabited

/-- A boolean expression. -/
inductive Criteria where
  | all (node : Node)
  | and (node : Node) (left right : Criteria)
  | or (node : Node) (left right : Criteria)
  | operator (node : Node) (source : Value) (mark : OperatorMark) (target : Value)
  /-- The object is at the edge of the temporal range named by the path. -/
  | edgePoint (node : Node) (member : ThisPath)
  deriving DecidableEq, Repr, Inhabited

structure OrderByMember extends Node where
  path : ThisPath
  direction : SortDirection
  deriving DecidableEq, Repr, Inhabited

structure OrderBy extends Node where
  members : List OrderByMember
  deriving DecidableEq, Repr, Inhabited

/-- Names of hops and member, each behind a point. -/
def dotted (hops : List Identifier) (member : Identifier) : String :=
  String.join ((hops ++ [member]).map fun step => "." ++ step.name)

namespace ThisPath

/-- The path as it is written. -/
def text (path : ThisPath) : String :=
  "this" ++ dotted path.hops path.member

/-- The components of the object of a path. -/
def fields (path : ThisPath) : List (String × Json) :=
  path.toNode.fields ++ [("hops", encode path.hops), ("member", encode path.member)]

instance : Codec ThisPath where
  encode path := .object path.fields
  decode json := do
    let [id, span, hops, member] ← json.components? ["id", "span", "hops", "member"] | none
    return ⟨← Node.ofComponents? id span, ← Codec.required hops, ← Codec.required member⟩

end ThisPath

namespace TypePath

/-- The path as it is written. -/
def text (path : TypePath) : String :=
  path.classifier.name ++ dotted path.hops path.member

/-- The components of the object of a path. -/
def fields (path : TypePath) : List (String × Json) :=
  path.toNode.fields ++ [("class_ref", encode path.classifier), ("hops", encode path.hops),
    ("member", encode path.member)]

instance : Codec TypePath where
  encode path := .object path.fields
  decode json := do
    let [id, span, classifier, hops, member] ←
      json.components? ["id", "span", "class_ref", "hops", "member"] | none
    return ⟨← Node.ofComponents? id span, ← Codec.required classifier, ← Codec.required hops,
      ← Codec.required member⟩

end TypePath

namespace LiteralNode

instance : Codec LiteralNode where
  encode literal := .object (literal.toNode.fields ++ [("value", encode literal.value)])
  decode json := do
    let [id, span, value] ← json.components? ["id", "span", "value"] | none
    return ⟨← Node.ofComponents? id span, ← Codec.required value⟩

end LiteralNode

namespace Value

def node : Value → Node
  | thisMember path => path.toNode
  | typeMember path => path.toNode
  | .variable node _ => node
  | literal constant => constant.toNode
  | literalList node _ => node
  | user node => node

/-- Whether the value is read from a property. -/
def isMemberPath : Value → Bool
  | thisMember _ | typeMember _ => true
  | _ => false

/-- The value as it is written. -/
def text : Value → String
  | thisMember path => path.text
  | typeMember path => path.text
  | .variable _ name => name.name
  | literal constant => constant.value.text
  | literalList _ values => "(" ++ ", ".intercalate (values.map (·.value.text)) ++ ")"
  | user _ => "user"

instance : Codec Value where
  encode
    | thisMember path => .tagged "ThisMember" (encode path)
    | typeMember path => .tagged "TypeMember" (encode path)
    | .variable node name =>
      .tagged "Variable" (.object (node.fields ++ [("name", encode name)]))
    | literal constant => .tagged "Literal" (encode constant)
    | literalList node values =>
      .tagged "LiteralList" (.object (node.fields ++ [("values", encode values)]))
    | user node => .tagged "User" (encode node)
  decode json :=
    match json.alternative? with
    | some ("ThisMember", some content) => (decode content).map thisMember
    | some ("TypeMember", some content) => (decode content).map typeMember
    | some ("Variable", some content) => do
      let [id, span, name] ← content.components? ["id", "span", "name"] | none
      return .variable (← Node.ofComponents? id span) (← Codec.required name)
    | some ("Literal", some content) => (decode content).map literal
    | some ("LiteralList", some content) => do
      let [id, span, values] ← content.components? ["id", "span", "values"] | none
      return literalList (← Node.ofComponents? id span) (← Codec.required values)
    | some ("User", some content) => (decode content).map user
    | _ => none

end Value

instance : Codec OperatorMark where
  encode operator := .object [("span", encode operator.span), ("kind", encode operator.kind)]
  decode json := do
    let [span, kind] ← json.components? ["span", "kind"] | none
    return ⟨← Codec.required span, ← Codec.required kind⟩

namespace Criteria

/-- The node of the outermost expression. -/
def node : Criteria → Node
  | all node => node
  | .and node _ _ => node
  | .or node _ _ => node
  | operator node _ _ _ => node
  | edgePoint node _ => node

/-- The criteria as they are written, with every conjunction and disjunction in
parentheses. -/
def text : Criteria → String
  | all _ => "all"
  | .and _ left right => "(" ++ left.text ++ " && " ++ right.text ++ ")"
  | .or _ left right => "(" ++ left.text ++ " || " ++ right.text ++ ")"
  | operator _ source mark target =>
    source.text ++ " " ++ keyword mark.kind ++ " " ++ target.text
  | edgePoint _ member => member.text ++ " equalsEdgePoint"

/-- Every expression of the tree, each before its parts, left before right. -/
def expressions : Criteria → List Criteria
  | .and node left right => .and node left right :: (left.expressions ++ right.expressions)
  | .or node left right => .or node left right :: (left.expressions ++ right.expressions)
  | criteria => [criteria]

/-- The two sides of every comparison, left to right. -/
def values (criteria : Criteria) : List Value :=
  criteria.expressions.flatMap fun
    | operator _ source _ target => [source, target]
    | _ => []

def toJson : Criteria → Json
  | all node => .tagged "All" (encode node)
  | .and node left right =>
    .tagged "And" (.object (node.fields ++ [("left", left.toJson), ("right", right.toJson)]))
  | .or node left right =>
    .tagged "Or" (.object (node.fields ++ [("left", left.toJson), ("right", right.toJson)]))
  | operator node source mark target =>
    .tagged "Operator" (.object (node.fields ++ [("source", encode source),
      ("operator", encode mark), ("target", encode target)]))
  | edgePoint node member =>
    .tagged "EdgePoint" (.object (node.fields ++ [("member", encode member)]))

/-- Read criteria that nest at most `levels` deep. -/
def ofJson? : (levels : Nat) → Json → Option Criteria
  | 0, _ => none
  | levels + 1, json =>
    match json.alternative? with
    | some ("All", some content) => (decode content).map all
    | some ("And", some content) => do
      let [id, span, left, right] ← content.components? ["id", "span", "left", "right"] | none
      return .and (← Node.ofComponents? id span) (← left.bind (ofJson? levels))
        (← right.bind (ofJson? levels))
    | some ("Or", some content) => do
      let [id, span, left, right] ← content.components? ["id", "span", "left", "right"] | none
      return .or (← Node.ofComponents? id span) (← left.bind (ofJson? levels))
        (← right.bind (ofJson? levels))
    | some ("Operator", some content) => do
      let [id, span, source, mark, target] ←
        content.components? ["id", "span", "source", "operator", "target"] | none
      return .operator (← Node.ofComponents? id span) (← Codec.required source)
        (← Codec.required mark) (← Codec.required target)
    | some ("EdgePoint", some content) => do
      let [id, span, member] ← content.components? ["id", "span", "member"] | none
      return edgePoint (← Node.ofComponents? id span) (← Codec.required member)
    | _ => none

instance : Codec Criteria where
  encode := toJson
  decode json := ofJson? json.depth json

end Criteria

instance : Codec OrderByMember where
  encode member := .object (member.toNode.fields ++
    [("path", encode member.path), ("direction", encode member.direction)])
  decode json := do
    let [id, span, path, direction] ← json.components? ["id", "span", "path", "direction"] | none
    return ⟨← Node.ofComponents? id span, ← Codec.required path, ← Codec.required direction⟩

instance : Codec OrderBy where
  encode orderBy := .object (orderBy.toNode.fields ++ [("members", encode orderBy.members)])
  decode json := do
    let [id, span, members] ← json.components? ["id", "span", "members"] | none
    return ⟨← Node.ofComponents? id span, ← Codec.required members⟩

end DomainLang.Syntax
