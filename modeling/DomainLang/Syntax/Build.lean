import DomainLang.Syntax.Numbering
import DomainLang.Text.Pieces

/-!
# Making trees without a text

Constructors for nodes that stand nowhere. A tree made of them is numbered
afterwards, by `SourceTree.onLines` with one line per declaration, or as a
fragment anchored at the declaration that caused it.

A dotted path is cut at every point; its last piece is the member and the others
are hops, so the empty path is the member with the empty name.
-/

namespace DomainLang.Syntax

namespace ThisPath

/-- The path from `this` with the given dotted names. -/
def ofText (path : String) : ThisPath :=
  let names := (Text.pieces '.' path).map Identifier.bare
  { toNode := .bare, hops := names.dropLast, member := names.getLastD (.bare "") }

end ThisPath

namespace TypePath

/-- The path from the classifier before the first point, with the names after it. -/
def ofText (path : String) : TypePath :=
  let (classifier, rest) := Text.cutFirst '.' path
  let inner := ThisPath.ofText rest
  { toNode := .bare, classifier := .bare classifier, hops := inner.hops, member := inner.member }

end TypePath

namespace Value

/-- A member of the object at hand. -/
def this (path : String) : Value := .thisMember (.ofText path)

/-- A member of a named classifier. -/
def ofType (path : String) : Value := .typeMember (.ofText path)

/-- A parameter of the url. -/
def named (name : String) : Value := .variable .bare (.bare name)

/-- A constant. -/
def ofLiteral (value : Literal) : Value := .literal ⟨.bare, value⟩

/-- A list of constants. -/
def ofLiterals (values : List Literal) : Value :=
  .literalList .bare (values.map fun value => ⟨.bare, value⟩)

end Value

namespace Criteria

def everything : Criteria := .all .bare

def both (left right : Criteria) : Criteria := .and .bare left right

/-- At least one of the two. -/
def either (left right : Criteria) : Criteria := .or .bare left right

/-- A comparison. -/
def compare (operator : Operator) (source target : Value) : Criteria :=
  .operator .bare source ⟨.placeholder, operator⟩ target

/-- A comparison for equality. -/
def equal (source target : Value) : Criteria :=
  compare .equal source target

/-- The edge point of a temporal range. -/
def atEdge (path : String) : Criteria := .edgePoint .bare (.ofText path)

end Criteria

namespace OrderBy

/-- An ordering by dotted paths. -/
def ofPaths (members : List (String × SortDirection)) : OrderBy where
  toNode := .bare
  members := members.map fun (path, direction) => ⟨.bare, .ofText path, direction⟩

end OrderBy

namespace ModifierMark

/-- A modifier that stands nowhere. -/
def bare (modifier : Modifier) : ModifierMark := ⟨.bare, modifier⟩

end ModifierMark

namespace Property

/-- A property that stands nowhere. -/
def bare (name : String) (type : PropertyType) (optional : Bool) (modifiers : List Modifier)
    (validations : List (ValidationKind × Int64)) : Property where
  toNode := .bare
  name := .bare name
  type := type
  typeSpan := .placeholder
  optional := optional
  modifiers := modifiers.map ModifierMark.bare
  validations := validations.map fun (kind, value) => ⟨.bare, kind, value⟩

end Property

namespace Clause

/-- A clause that stands nowhere. -/
def bare (kind : ClauseKind) (criteria : Criteria) : Clause :=
  ⟨.bare, kind, .placeholder, criteria⟩

end Clause

namespace SourceTree

/-- The tree with one line of the given file per declaration. -/
def onLines (fileId : UInt16) (tree : SourceTree) : SourceTree :=
  tree.numbered (.lines fileId)

end SourceTree
end DomainLang.Syntax
