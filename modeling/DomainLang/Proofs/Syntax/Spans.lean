import DomainLang.Proofs.Syntax.Stripped

/-!
# The spans of a tree

Every span that is kept in a piece of syntax: those of nodes, of names, and of the keywords,
types and operators that have a place of their own.
-/

namespace DomainLang.Syntax

def Node.spans (node : Node) : List Span := [node.span]

def Identifier.spans (name : Identifier) : List Span := [name.span]

/-- The span of the name of an enumeration. -/
def PropertyType.spans : PropertyType → List Span
  | .primitive _ => []
  | .enumeration name => name.spans

def ModifierMark.spans (mark : ModifierMark) : List Span := mark.toNode.spans

def ThisPath.spans (path : ThisPath) : List Span :=
  path.toNode.spans ++ path.hops.flatMap Identifier.spans ++ path.member.spans

def TypePath.spans (path : TypePath) : List Span :=
  path.toNode.spans ++ path.classifier.spans ++ path.hops.flatMap Identifier.spans ++
    path.member.spans

def LiteralNode.spans (constant : LiteralNode) : List Span := constant.toNode.spans

def Value.spans : Value → List Span
  | .thisMember path => path.spans
  | .typeMember path => path.spans
  | .variable node name => node.spans ++ name.spans
  | .literal constant => constant.spans
  | .literalList node values => node.spans ++ values.flatMap LiteralNode.spans
  | .user node => node.spans

def Criteria.spans : Criteria → List Span
  | .all node => node.spans
  | .and node left right => node.spans ++ left.spans ++ right.spans
  | .or node left right => node.spans ++ left.spans ++ right.spans
  | .operator node source mark target =>
    node.spans ++ source.spans ++ [mark.span] ++ target.spans
  | .edgePoint node member => node.spans ++ member.spans

def OrderByMember.spans (member : OrderByMember) : List Span :=
  member.toNode.spans ++ member.path.spans

def OrderBy.spans (ordering : OrderBy) : List Span :=
  ordering.toNode.spans ++ ordering.members.flatMap OrderByMember.spans

def Validation.spans (bound : Validation) : List Span := bound.toNode.spans

def Property.spans (property : Property) : List Span :=
  property.toNode.spans ++ property.name.spans ++ property.type.spans ++ [property.typeSpan] ++
    property.modifiers.flatMap ModifierMark.spans ++ property.validations.flatMap Validation.spans

def EndSignature.spans (signature : EndSignature) : List Span :=
  signature.toNode.spans ++ signature.name.spans ++ signature.target.spans ++
    signature.modifiers.flatMap ModifierMark.spans

def Member.spans : Member → List Span
  | .property declaration => declaration.spans
  | .endSignature signature => signature.spans

def EnumerationLiteral.spans (literal : EnumerationLiteral) : List Span :=
  literal.toNode.spans ++ literal.name.spans

def Enumeration.spans (enumeration : Enumeration) : List Span :=
  enumeration.toNode.spans ++ enumeration.name.spans ++
    enumeration.literals.flatMap EnumerationLiteral.spans

def Interface.spans (interface : Interface) : List Span :=
  interface.toNode.spans ++ interface.name.spans ++
    interface.interfaces.flatMap Identifier.spans ++
    interface.modifiers.flatMap ModifierMark.spans ++ interface.members.flatMap Member.spans

def AbstractClause.spans (clause : AbstractClause) : List Span := [clause.span]

def Class.spans (declaration : Class) : List Span :=
  declaration.toNode.spans ++ declaration.name.spans ++
    declaration.abstraction.toList.flatMap AbstractClause.spans ++
    declaration.superclass.toList.flatMap Identifier.spans ++
    declaration.interfaces.flatMap Identifier.spans ++
    declaration.modifiers.flatMap ModifierMark.spans ++ declaration.members.flatMap Member.spans

def AssociationEnd.spans (declaration : AssociationEnd) : List Span :=
  declaration.toNode.spans ++ declaration.name.spans ++ declaration.target.spans ++
    declaration.modifiers.flatMap ModifierMark.spans ++
    declaration.orderBy.toList.flatMap OrderBy.spans

def Association.spans (association : Association) : List Span :=
  association.toNode.spans ++ association.name.spans ++ association.source.spans ++
    association.target.spans ++ association.relationship.spans

mutual

def ProjectionElement.spans : ProjectionElement → List Span
  | .property node name _ => node.spans ++ name.spans
  | .reference node name children =>
    node.spans ++ name.spans ++ ProjectionElement.allSpans children
  | .projection node name target => node.spans ++ name.spans ++ target.spans

def ProjectionElement.allSpans : List ProjectionElement → List Span
  | [] => []
  | element :: rest => element.spans ++ ProjectionElement.allSpans rest

end

def Projection.spans (projection : Projection) : List Span :=
  projection.toNode.spans ++ projection.name.spans ++ projection.classifier.spans ++
    ProjectionElement.allSpans projection.children

def Parameter.spans (parameter : Parameter) : List Span :=
  parameter.toNode.spans ++ parameter.name.spans ++ parameter.type.spans

def UrlSegment.spans : UrlSegment → List Span
  | .constant name => name.spans
  | .parameter declaration => declaration.spans

def Clause.spans (clause : Clause) : List Span :=
  clause.toNode.spans ++ [clause.keywordSpan] ++ clause.criteria.spans

def Service.spans (service : Service) : List Span :=
  service.toNode.spans ++ service.clauses.flatMap Clause.spans ++
    service.projection.toList.flatMap Identifier.spans ++
    service.orderBy.toList.flatMap OrderBy.spans

def Url.spans (url : Url) : List Span :=
  url.toNode.spans ++ url.path.flatMap UrlSegment.spans ++
    url.queryParameters.flatMap Parameter.spans ++ url.services.flatMap Service.spans

def ServiceGroup.spans (group : ServiceGroup) : List Span :=
  group.toNode.spans ++ group.name.spans ++ group.target.spans ++ group.urls.flatMap Url.spans

def Declaration.spans : Declaration → List Span
  | .enumeration declaration => declaration.spans
  | .interface declaration => declaration.spans
  | .klass declaration => declaration.spans
  | .association declaration => declaration.spans
  | .projection declaration => declaration.spans
  | .serviceGroup declaration => declaration.spans

/-- The spans of a tree. -/
def SourceTree.spans (tree : SourceTree) : List Span :=
  tree.package.toNode.spans ++ tree.elements.flatMap Declaration.spans

/-- A member stands on a line of its own. -/
def Member.lineSpans : Member → List Span
  | .property declaration => [declaration.span]
  | .endSignature signature => [signature.span]

/-- A literal stands on a line of its own. -/
def EnumerationLiteral.lineSpans (literal : EnumerationLiteral) : List Span := [literal.span]

/-- An end stands on a line of its own. -/
def AssociationEnd.lineSpans (declaration : AssociationEnd) : List Span := [declaration.span]

mutual

/-- An element of a projection stands on a line of its own, before the elements under it. -/
def ProjectionElement.lineSpans : ProjectionElement → List Span
  | .property node _ _ => [node.span]
  | .reference node _ children => node.span :: ProjectionElement.allLineSpans children
  | .projection node _ _ => [node.span]

/-- The elements of a projection stand on lines of their own. -/
def ProjectionElement.allLineSpans : List ProjectionElement → List Span
  | [] => []
  | element :: rest => element.lineSpans ++ ProjectionElement.allLineSpans rest

end

/-- A clause stands on a line of its own. -/
def Clause.lineSpans (clause : Clause) : List Span := [clause.span]

/-- A service stands on a line of its own, before its clauses, its projection and its ordering. -/
def Service.lineSpans (service : Service) : List Span :=
  service.span :: (service.clauses.flatMap Clause.lineSpans ++
    (service.projection.toList.map (·.span) ++ service.orderBy.toList.map (·.span)))

/-- A url stands on a line of its own, before its services. -/
def Url.lineSpans (url : Url) : List Span :=
  url.span :: url.services.flatMap Service.lineSpans

/-- A declaration stands on a line of its own, before what it holds. -/
def Declaration.lineSpans : Declaration → List Span
  | .enumeration declaration =>
    declaration.span :: declaration.literals.flatMap EnumerationLiteral.lineSpans
  | .interface declaration => declaration.span :: declaration.members.flatMap Member.lineSpans
  | .klass declaration => declaration.span :: declaration.members.flatMap Member.lineSpans
  | .association declaration =>
    declaration.span :: (declaration.source.lineSpans ++ (declaration.target.lineSpans ++
      [declaration.relationship.node.span]))
  | .projection declaration =>
    declaration.span :: ProjectionElement.allLineSpans declaration.children
  | .serviceGroup declaration => declaration.span :: declaration.urls.flatMap Url.lineSpans

/-- The package and the declarations stand on lines of their own. -/
def SourceTree.lineSpans (tree : SourceTree) : List Span :=
  tree.package.span :: tree.elements.flatMap Declaration.lineSpans

namespace SpanMode

/-- The mode moves all spans in the same way, whichever line is open. -/
def Steady (mode : SpanMode) : Prop :=
  ∀ line, mode.place line = mode.place 0

/-- The spans are such as the mode makes. -/
def Makes (mode : SpanMode) (spans : List Span) : Prop :=
  ∀ span ∈ spans, ∃ line original, span = mode.place line original

@[simp] theorem makes_append (mode : SpanMode) (first second : List Span) :
    mode.Makes (first ++ second) ↔ mode.Makes first ∧ mode.Makes second :=
  List.forall_mem_append

@[simp] theorem makes_nil (mode : SpanMode) : mode.Makes [] :=
  List.forall_mem_nil _

end SpanMode

namespace Numbering

/-- The line that is open after a line was opened for each span. -/
def opened (line : UInt16) : List Span → UInt16
  | [] => line
  | _ :: rest => opened (Cursor.following line) rest

/-- The spans, each placed on a line that was opened for it. -/
def placed (mode : SpanMode) (line : UInt16) : List Span → List Span
  | [] => []
  | span :: rest =>
    mode.place (Cursor.following line) span :: placed mode (Cursor.following line) rest

@[simp] theorem opened_append (line : UInt16) (first second : List Span) :
    opened line (first ++ second) = opened (opened line first) second := by
  induction first generalizing line with
  | nil => rfl
  | cons _ _ ih => exact ih _

@[simp] theorem placed_append (mode : SpanMode) (line : UInt16) (first second : List Span) :
    placed mode line (first ++ second) =
      placed mode line first ++ placed mode (opened line first) second := by
  induction first generalizing line with
  | nil => rfl
  | cons _ _ ih => simp [placed, opened, ih]

end Numbering
end DomainLang.Syntax
