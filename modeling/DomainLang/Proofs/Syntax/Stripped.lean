import DomainLang.Syntax.Numbering

/-!
# Trees without ids and spans

The stripped form of a tree has bare nodes and placeholder spans everywhere, and
is otherwise the tree itself. Two trees with the same stripped form were written
with the same words.
-/

namespace DomainLang.Syntax

/-- The name without its place. -/
def Identifier.stripped (identifier : Identifier) : Identifier :=
  .bare identifier.name

def ThisPath.stripped (path : ThisPath) : ThisPath where
  toNode := .bare
  hops := path.hops.map Identifier.stripped
  member := path.member.stripped

def TypePath.stripped (path : TypePath) : TypePath where
  toNode := .bare
  classifier := path.classifier.stripped
  hops := path.hops.map Identifier.stripped
  member := path.member.stripped

/-- The constant without its id and place. -/
def LiteralNode.stripped (constant : LiteralNode) : LiteralNode :=
  { constant with toNode := .bare }

def Value.stripped : Value → Value
  | .thisMember path => .thisMember path.stripped
  | .typeMember path => .typeMember path.stripped
  | .variable _ name => .variable .bare name.stripped
  | .literal constant => .literal constant.stripped
  | .literalList _ values => .literalList .bare (values.map LiteralNode.stripped)
  | .user _ => .user .bare

def Criteria.stripped : Criteria → Criteria
  | .all _ => .all .bare
  | .and _ left right => .and .bare left.stripped right.stripped
  | .or _ left right => .or .bare left.stripped right.stripped
  | .operator _ source mark target =>
    .operator .bare source.stripped { mark with span := .placeholder } target.stripped
  | .edgePoint _ member => .edgePoint .bare member.stripped

def OrderByMember.stripped (member : OrderByMember) : OrderByMember :=
  { member with toNode := .bare, path := member.path.stripped }

def OrderBy.stripped (ordering : OrderBy) : OrderBy where
  toNode := .bare
  members := ordering.members.map OrderByMember.stripped

/-- The type without the place of its name. -/
def PropertyType.stripped : PropertyType → PropertyType
  | .primitive type => .primitive type
  | .enumeration name => .enumeration name.stripped

/-- The modifier without its id and place. -/
def ModifierMark.stripped (mark : ModifierMark) : ModifierMark :=
  { mark with toNode := .bare }

/-- The bound without its id and place. -/
def Validation.stripped (bound : Validation) : Validation :=
  { bound with toNode := .bare }

def Property.stripped (property : Property) : Property where
  toNode := .bare
  name := property.name.stripped
  type := property.type.stripped
  typeSpan := .placeholder
  optional := property.optional
  modifiers := property.modifiers.map ModifierMark.stripped
  validations := property.validations.map Validation.stripped

def EndSignature.stripped (signature : EndSignature) : EndSignature where
  toNode := .bare
  name := signature.name.stripped
  target := signature.target.stripped
  multiplicity := signature.multiplicity
  modifiers := signature.modifiers.map ModifierMark.stripped

def Member.stripped : Member → Member
  | .property declaration => .property declaration.stripped
  | .endSignature signature => .endSignature signature.stripped

/-- The literal of an enumeration without its id and place. -/
def EnumerationLiteral.stripped (literal : EnumerationLiteral) : EnumerationLiteral :=
  { literal with toNode := .bare, name := literal.name.stripped }

def Enumeration.stripped (enumeration : Enumeration) : Enumeration where
  toNode := .bare
  name := enumeration.name.stripped
  literals := enumeration.literals.map EnumerationLiteral.stripped

def Interface.stripped (interface : Interface) : Interface where
  toNode := .bare
  name := interface.name.stripped
  interfaces := interface.interfaces.map Identifier.stripped
  modifiers := interface.modifiers.map ModifierMark.stripped
  members := interface.members.map Member.stripped

def Class.stripped (declaration : Class) : Class where
  toNode := .bare
  name := declaration.name.stripped
  isUser := declaration.isUser
  abstraction := declaration.abstraction.map ({ · with span := .placeholder })
  superclass := declaration.superclass.map Identifier.stripped
  interfaces := declaration.interfaces.map Identifier.stripped
  modifiers := declaration.modifiers.map ModifierMark.stripped
  members := declaration.members.map Member.stripped

def AssociationEnd.stripped (declaration : AssociationEnd) : AssociationEnd where
  toNode := .bare
  name := declaration.name.stripped
  target := declaration.target.stripped
  multiplicity := declaration.multiplicity
  modifiers := declaration.modifiers.map ModifierMark.stripped
  orderBy := declaration.orderBy.map OrderBy.stripped

def Association.stripped (association : Association) : Association where
  toNode := .bare
  name := association.name.stripped
  source := association.source.stripped
  target := association.target.stripped
  relationship := association.relationship.stripped

mutual

def ProjectionElement.stripped : ProjectionElement → ProjectionElement
  | .property _ name header => .property .bare name.stripped header
  | .reference _ name children =>
    .reference .bare name.stripped (ProjectionElement.strippedAll children)
  | .projection _ name target => .projection .bare name.stripped target.stripped

def ProjectionElement.strippedAll : List ProjectionElement → List ProjectionElement
  | [] => []
  | element :: rest => element.stripped :: ProjectionElement.strippedAll rest

end

def Projection.stripped (projection : Projection) : Projection where
  toNode := .bare
  name := projection.name.stripped
  classifier := projection.classifier.stripped
  children := ProjectionElement.strippedAll projection.children

def Parameter.stripped (parameter : Parameter) : Parameter :=
  { parameter with
    toNode := .bare
    name := parameter.name.stripped
    type := parameter.type.stripped }

def UrlSegment.stripped : UrlSegment → UrlSegment
  | .constant name => .constant name.stripped
  | .parameter declaration => .parameter declaration.stripped

def Clause.stripped (clause : Clause) : Clause where
  toNode := .bare
  kind := clause.kind
  keywordSpan := .placeholder
  criteria := clause.criteria.stripped

def Service.stripped (service : Service) : Service :=
  { service with
    toNode := .bare
    clauses := service.clauses.map Clause.stripped
    projection := service.projection.map Identifier.stripped
    orderBy := service.orderBy.map OrderBy.stripped }

def Url.stripped (url : Url) : Url where
  toNode := .bare
  path := url.path.map UrlSegment.stripped
  queryParameters := url.queryParameters.map Parameter.stripped
  services := url.services.map Service.stripped

def ServiceGroup.stripped (group : ServiceGroup) : ServiceGroup where
  toNode := .bare
  name := group.name.stripped
  target := group.target.stripped
  urls := group.urls.map Url.stripped

def Declaration.stripped : Declaration → Declaration
  | .enumeration declaration => .enumeration declaration.stripped
  | .interface declaration => .interface declaration.stripped
  | .klass declaration => .klass declaration.stripped
  | .association declaration => .association declaration.stripped
  | .projection declaration => .projection declaration.stripped
  | .serviceGroup declaration => .serviceGroup declaration.stripped

/-- The tree without ids and places. -/
def SourceTree.stripped (tree : SourceTree) : SourceTree where
  package := { tree.package with toNode := .bare }
  elements := tree.elements.map Declaration.stripped

namespace Numbering

/-- What a step answers from a cursor. -/
def output {α : Type} (step : Numbering α) (cursor : Cursor) : α :=
  (StateT.run step cursor).1

/-- Where a step leaves the cursor. -/
def leaves {α : Type} (step : Numbering α) (cursor : Cursor) : Cursor :=
  (StateT.run step cursor).2

@[simp] theorem output_pure {α : Type} (value : α) (cursor : Cursor) :
    output (pure value) cursor = value :=
  rfl

@[simp] theorem output_bind {α β : Type} (first : Numbering α) (next : α → Numbering β)
    (cursor : Cursor) :
    output (first >>= next) cursor = output (next (first.output cursor)) (first.leaves cursor) :=
  rfl

@[simp] theorem output_map {α β : Type} (change : α → β) (step : Numbering α) (cursor : Cursor) :
    output (change <$> step) cursor = change (step.output cursor) :=
  rfl

end Numbering
end DomainLang.Syntax
