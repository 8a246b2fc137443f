import DomainLang.Syntax.Tree

/-!
# Numbering of trees

Numbering gives the nodes of a tree the ids 1, 2, 3, … with every node before
its parts, and at the same time decides what becomes of the spans. It changes
nothing else.

The traversal opens a line for every declaration, member, end, relationship,
projection element, url, service and clause; the lines matter in the mode
`SpanMode.lines` only, where they are all that a span says.
-/

namespace DomainLang.Syntax

/-- What numbering does to a span. -/
inductive SpanMode where
  /-- Leave it. -/
  | keep
  /-- Move it to another file. -/
  | retarget (fileId : UInt16)
  /-- Put it on the line that is open. -/
  | lines (fileId : UInt16)
  /-- Replace it by the span of the declaration that caused the fragment. -/
  | anchor (span : Span)
  deriving DecidableEq, Repr

/-- The next id, and the line that is open. -/
structure Cursor where
  next : UInt32 := 1
  line : UInt16 := 0
  deriving DecidableEq, Repr, Inhabited

namespace Cursor

/-- How many ids were given out. -/
def assigned (cursor : Cursor) : UInt32 :=
  cursor.next - 1

/-- The line after this one; the last line is never left. -/
def following (line : UInt16) : UInt16 :=
  if line = 65535 then line else line + 1

end Cursor

/-- A step of the traversal. -/
abbrev Numbering := StateM Cursor

namespace SpanMode

/-- What becomes of a span while `line` is open. -/
def place (mode : SpanMode) (line : UInt16) (span : Span) : Span :=
  match mode with
  | keep => span
  | retarget fileId => { span with fileId }
  | lines fileId => ⟨fileId, 0, 0, line⟩
  | anchor anchorSpan => anchorSpan

end SpanMode

namespace Numbering

/-- Open the next line. -/
def newLine : Numbering Unit :=
  modify fun cursor => { cursor with line := Cursor.following cursor.line }

/-- Place a span that belongs to no node of its own. -/
def span (mode : SpanMode) (existing : Span) : Numbering Span := do
  return mode.place (← get).line existing

/-- Give a node the next id and place its span. -/
def node (mode : SpanMode) (existing : Node) : Numbering Node := do
  let cursor ← get
  set { cursor with next := cursor.next + 1 }
  return ⟨⟨cursor.next⟩, mode.place cursor.line existing.span⟩

/-- Place the span of a name. -/
def identifier (mode : SpanMode) (existing : Identifier) : Numbering Identifier := do
  return { existing with span := ← span mode existing.span }

/-- Place the span of a type that names an enumeration. -/
def propertyType (mode : SpanMode) : PropertyType → Numbering PropertyType
  | .primitive type => return .primitive type
  | .enumeration name => return .enumeration (← identifier mode name)

def modifierMark (mode : SpanMode) (mark : ModifierMark) : Numbering ModifierMark := do
  return { mark with toNode := ← node mode mark.toNode }

def thisPath (mode : SpanMode) (path : ThisPath) : Numbering ThisPath := do
  let toNode ← node mode path.toNode
  let hops ← path.hops.mapM (identifier mode)
  let member ← identifier mode path.member
  return { toNode, hops, member }

/-- Number a path from a named classifier. -/
def typePath (mode : SpanMode) (path : TypePath) : Numbering TypePath := do
  let toNode ← node mode path.toNode
  let classifier ← identifier mode path.classifier
  let hops ← path.hops.mapM (identifier mode)
  let member ← identifier mode path.member
  return { toNode, classifier, hops, member }

def literal (mode : SpanMode) (constant : LiteralNode) : Numbering LiteralNode := do
  return { constant with toNode := ← node mode constant.toNode }

/-- Number one side of a comparison. -/
def value (mode : SpanMode) : Value → Numbering Value
  | .thisMember path => return .thisMember (← thisPath mode path)
  | .typeMember path => return .typeMember (← typePath mode path)
  | .variable existing name => do
    let existing ← node mode existing
    return .variable existing (← identifier mode name)
  | .literal constant => return .literal (← literal mode constant)
  | .literalList existing values => do
    let existing ← node mode existing
    return .literalList existing (← values.mapM (literal mode))
  | .user existing => return .user (← node mode existing)

def criteria (mode : SpanMode) : Criteria → Numbering Criteria
  | .all existing => return .all (← node mode existing)
  | .and existing left right => do
    let existing ← node mode existing
    let left ← criteria mode left
    return .and existing left (← criteria mode right)
  | .or existing left right => do
    let existing ← node mode existing
    let left ← criteria mode left
    return .or existing left (← criteria mode right)
  | .operator existing source mark target => do
    let existing ← node mode existing
    let source ← value mode source
    let markSpan ← span mode mark.span
    return .operator existing source { mark with span := markSpan } (← value mode target)
  | .edgePoint existing member => do
    let existing ← node mode existing
    return .edgePoint existing (← thisPath mode member)

def orderByMember (mode : SpanMode) (member : OrderByMember) : Numbering OrderByMember := do
  let toNode ← node mode member.toNode
  let path ← thisPath mode member.path
  return { member with toNode, path }

def orderBy (mode : SpanMode) (ordering : OrderBy) : Numbering OrderBy := do
  let toNode ← node mode ordering.toNode
  let members ← ordering.members.mapM (orderByMember mode)
  return { toNode, members }

/-- Number an ordering that may be absent. -/
def optionalOrderBy (mode : SpanMode) : Option OrderBy → Numbering (Option OrderBy)
  | none => return none
  | some ordering => return some (← orderBy mode ordering)

def validation (mode : SpanMode) (bound : Validation) : Numbering Validation := do
  return { bound with toNode := ← node mode bound.toNode }

def property (mode : SpanMode) (declaration : Property) : Numbering Property := do
  let toNode ← node mode declaration.toNode
  let name ← identifier mode declaration.name
  let type ← propertyType mode declaration.type
  let typeSpan ← span mode declaration.typeSpan
  let modifiers ← declaration.modifiers.mapM (modifierMark mode)
  let validations ← declaration.validations.mapM (validation mode)
  return { declaration with toNode, name, type, typeSpan, modifiers, validations }

def endSignature (mode : SpanMode) (signature : EndSignature) : Numbering EndSignature := do
  let toNode ← node mode signature.toNode
  let name ← identifier mode signature.name
  let target ← identifier mode signature.target
  let modifiers ← signature.modifiers.mapM (modifierMark mode)
  return { signature with toNode, name, target, modifiers }

/-- Number a member on a line of its own. -/
def member (mode : SpanMode) (declaration : Member) : Numbering Member := do
  newLine
  match declaration with
  | .property declaration => return .property (← property mode declaration)
  | .endSignature signature => return .endSignature (← endSignature mode signature)

/-- Number the literal of an enumeration on a line of its own. -/
def enumerationLiteral (mode : SpanMode) (declaration : EnumerationLiteral) :
    Numbering EnumerationLiteral := do
  newLine
  let toNode ← node mode declaration.toNode
  let name ← identifier mode declaration.name
  return { declaration with toNode, name }

def enumeration (mode : SpanMode) (declaration : Enumeration) : Numbering Enumeration := do
  let toNode ← node mode declaration.toNode
  let name ← identifier mode declaration.name
  let literals ← declaration.literals.mapM (enumerationLiteral mode)
  return { toNode, name, literals }

def interface (mode : SpanMode) (declaration : Interface) : Numbering Interface := do
  let toNode ← node mode declaration.toNode
  let name ← identifier mode declaration.name
  let interfaces ← declaration.interfaces.mapM (identifier mode)
  let modifiers ← declaration.modifiers.mapM (modifierMark mode)
  let members ← declaration.members.mapM (member mode)
  return { toNode, name, interfaces, modifiers, members }

/-- Place the span of a clause that makes a class abstract. -/
def abstractClause (mode : SpanMode) : Option AbstractClause → Numbering (Option AbstractClause)
  | none => return none
  | some clause => return some { clause with span := ← span mode clause.span }

/-- Place the span of a name that may be absent. -/
def optionalIdentifier (mode : SpanMode) : Option Identifier → Numbering (Option Identifier)
  | none => return none
  | some name => return some (← identifier mode name)

def klass (mode : SpanMode) (declaration : Class) : Numbering Class := do
  let toNode ← node mode declaration.toNode
  let name ← identifier mode declaration.name
  let abstraction ← abstractClause mode declaration.abstraction
  let superclass ← optionalIdentifier mode declaration.superclass
  let interfaces ← declaration.interfaces.mapM (identifier mode)
  let modifiers ← declaration.modifiers.mapM (modifierMark mode)
  let members ← declaration.members.mapM (member mode)
  return { declaration with toNode, name, abstraction, superclass, interfaces, modifiers, members }

/-- Number an end of an association on a line of its own. -/
def associationEnd (mode : SpanMode) (declaration : AssociationEnd) :
    Numbering AssociationEnd := do
  newLine
  let toNode ← node mode declaration.toNode
  let name ← identifier mode declaration.name
  let target ← identifier mode declaration.target
  let modifiers ← declaration.modifiers.mapM (modifierMark mode)
  let orderBy ← optionalOrderBy mode declaration.orderBy
  return { declaration with toNode, name, target, modifiers, orderBy }

/-- Number an association; its relationship stands on a line of its own. -/
def association (mode : SpanMode) (declaration : Association) : Numbering Association := do
  let toNode ← node mode declaration.toNode
  let name ← identifier mode declaration.name
  let source ← associationEnd mode declaration.source
  let target ← associationEnd mode declaration.target
  newLine
  let relationship ← criteria mode declaration.relationship
  return { toNode, name, source, target, relationship }

mutual

/-- Number an element of a projection on a line of its own. -/
def projectionElement (mode : SpanMode) : ProjectionElement → Numbering ProjectionElement
  | .property existing name header => do
    newLine
    let existing ← node mode existing
    return .property existing (← identifier mode name) header
  | .reference existing name children => do
    newLine
    let existing ← node mode existing
    let name ← identifier mode name
    return .reference existing name (← projectionElements mode children)
  | .projection existing name target => do
    newLine
    let existing ← node mode existing
    let name ← identifier mode name
    return .projection existing name (← identifier mode target)

/-- Number the elements of a projection in order. -/
def projectionElements (mode : SpanMode) :
    List ProjectionElement → Numbering (List ProjectionElement)
  | [] => return []
  | element :: rest => do
    let element ← projectionElement mode element
    return element :: (← projectionElements mode rest)

end

def projection (mode : SpanMode) (declaration : Projection) : Numbering Projection := do
  let toNode ← node mode declaration.toNode
  let name ← identifier mode declaration.name
  let classifier ← identifier mode declaration.classifier
  let children ← projectionElements mode declaration.children
  return { toNode, name, classifier, children }

def parameter (mode : SpanMode) (declaration : Parameter) : Numbering Parameter := do
  let toNode ← node mode declaration.toNode
  let name ← identifier mode declaration.name
  let type ← propertyType mode declaration.type
  return { declaration with toNode, name, type }

/-- Number a segment of a path. -/
def urlSegment (mode : SpanMode) : UrlSegment → Numbering UrlSegment
  | .constant name => return .constant (← identifier mode name)
  | .parameter declaration => return .parameter (← parameter mode declaration)

/-- Number a clause of a service on a line of its own. -/
def clause (mode : SpanMode) (declaration : Clause) : Numbering Clause := do
  newLine
  let toNode ← node mode declaration.toNode
  let keywordSpan ← span mode declaration.keywordSpan
  let criteria ← criteria mode declaration.criteria
  return { declaration with toNode, keywordSpan, criteria }

/-- Run a step on a line of its own when there is something to number. -/
def onLine {α : Type} (step : α → Numbering α) : Option α → Numbering (Option α)
  | none => return none
  | some declaration => do
    newLine
    return some (← step declaration)

/-- Number a service on a line of its own. -/
def service (mode : SpanMode) (declaration : Service) : Numbering Service := do
  newLine
  let toNode ← node mode declaration.toNode
  let clauses ← declaration.clauses.mapM (clause mode)
  let projection ← onLine (identifier mode) declaration.projection
  let orderBy ← onLine (orderBy mode) declaration.orderBy
  return { declaration with toNode, clauses, projection, orderBy }

/-- Number a url on a line of its own. -/
def url (mode : SpanMode) (declaration : Url) : Numbering Url := do
  newLine
  let toNode ← node mode declaration.toNode
  let path ← declaration.path.mapM (urlSegment mode)
  let queryParameters ← declaration.queryParameters.mapM (parameter mode)
  let services ← declaration.services.mapM (service mode)
  return { toNode, path, queryParameters, services }

def serviceGroup (mode : SpanMode) (declaration : ServiceGroup) : Numbering ServiceGroup := do
  let toNode ← node mode declaration.toNode
  let name ← identifier mode declaration.name
  let target ← identifier mode declaration.target
  let urls ← declaration.urls.mapM (url mode)
  return { toNode, name, target, urls }

/-- Number a top-level declaration on a line of its own. -/
def declaration (mode : SpanMode) (element : Declaration) : Numbering Declaration := do
  newLine
  match element with
  | .enumeration declaration => return .enumeration (← enumeration mode declaration)
  | .interface declaration => return .interface (← interface mode declaration)
  | .klass declaration => return .klass (← klass mode declaration)
  | .association declaration => return .association (← association mode declaration)
  | .projection declaration => return .projection (← projection mode declaration)
  | .serviceGroup declaration => return .serviceGroup (← serviceGroup mode declaration)

def tree (mode : SpanMode) (source : SourceTree) : Numbering SourceTree := do
  newLine
  let packageNode ← node mode source.package.toNode
  let elements ← source.elements.mapM (declaration mode)
  return { package := { source.package with toNode := packageNode }, elements }

/-- Number the members of a fragment. -/
def members (mode : SpanMode) (declarations : List Member) : Numbering (List Member) :=
  declarations.mapM (member mode)

/-- Number the clauses of a fragment. -/
def clauses (mode : SpanMode) (declarations : List Clause) : Numbering (List Clause) :=
  declarations.mapM (clause mode)

end Numbering

namespace SourceTree

/-- The tree numbered from one, and how many ids that took. -/
def number (mode : SpanMode) (tree : SourceTree) : SourceTree × UInt32 :=
  let (numbered, cursor) := (Numbering.tree mode tree).run {}
  (numbered, cursor.assigned)

def numbered (mode : SpanMode) (tree : SourceTree) : SourceTree :=
  (tree.number mode).1

end SourceTree
end DomainLang.Syntax
