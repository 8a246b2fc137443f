import DomainLang.Syntax.Node

/-!
# Projections as written

A projection selects properties of a classifier and of what its references lead
to. A reference either nests its own selection or names another projection.
-/

namespace DomainLang.Syntax

inductive ProjectionElement where
  | property (node : Node) (name : Identifier) (header : String)
  | reference (node : Node) (name : Identifier) (children : List ProjectionElement)
  | projection (node : Node) (name : Identifier) (projection : Identifier)
  deriving Repr, Inhabited

structure Projection extends Node where
  name : Identifier
  classifier : Identifier
  children : List ProjectionElement
  deriving Repr, Inhabited

namespace ProjectionElement

def node : ProjectionElement → Node
  | property node _ _ => node
  | reference node _ _ => node
  | projection node _ _ => node

/-- The name of the property or reference. -/
def name : ProjectionElement → Identifier
  | property _ name _ => name
  | reference _ name _ => name
  | projection _ name _ => name

mutual

def toJson : ProjectionElement → Json
  | property node name header =>
    .tagged "Property" (.object (node.fields ++
      [("name", encode name), ("header", encode header)]))
  | reference node name children =>
    .tagged "Reference" (.object (node.fields ++
      [("name", encode name), ("children", .list (allToJson children))]))
  | projection node name target =>
    .tagged "Projection" (.object (node.fields ++
      [("name", encode name), ("projection", encode target)]))

/-- The JSON forms of several elements. -/
def allToJson : List ProjectionElement → List Json
  | [] => []
  | element :: rest => element.toJson :: allToJson rest

end

/-- Read an element that nests at most `levels` deep. -/
def ofJson? : (levels : Nat) → Json → Option ProjectionElement
  | 0, _ => none
  | levels + 1, json =>
    match json.alternative? with
    | some ("Property", some content) => do
      let [id, span, name, header] ← content.components? ["id", "span", "name", "header"] | none
      return property (← Node.ofComponents? id span) (← Codec.required name)
        (← Codec.required header)
    | some ("Reference", some content) => do
      let [id, span, name, children] ←
        content.components? ["id", "span", "name", "children"] | none
      let node ← Node.ofComponents? id span
      let name ← Codec.required name
      match children with
      | some (.list items) => return reference node name (← items.mapM (ofJson? levels))
      | _ => none
    | some ("Projection", some content) => do
      let [id, span, name, target] ←
        content.components? ["id", "span", "name", "projection"] | none
      return projection (← Node.ofComponents? id span) (← Codec.required name)
        (← Codec.required target)
    | _ => none

instance : Codec ProjectionElement where
  encode := toJson
  decode json := ofJson? json.depth json

end ProjectionElement

instance : Codec Projection where
  encode projection := .object (projection.toNode.fields ++
    [("name", encode projection.name), ("class_ref", encode projection.classifier),
      ("children", encode projection.children)])
  decode json := do
    let [id, span, name, classifier, children] ←
      json.components? ["id", "span", "name", "class_ref", "children"] | none
    return ⟨← Node.ofComponents? id span, ← Codec.required name, ← Codec.required classifier,
      ← Codec.required children⟩

end DomainLang.Syntax
