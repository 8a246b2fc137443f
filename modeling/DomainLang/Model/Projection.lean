import DomainLang.Model.Element

/-!
# Projections of a model

An element is a property, a reference with elements of its own, or a reference
that another projection describes.
-/

namespace DomainLang.Model

/-- What a reference of a projection navigates along. -/
inductive Reference where
  | associationEnd (id : AssociationEndId)
  | signature (id : EndSignatureId)
  deriving DecidableEq, Repr, Inhabited

inductive ProjectionElement where
  | property (name header : String) (property : PropertyId)
  | reference (name : String) (reference : Reference) (children : List ProjectionElement)
  | projection (name : String) (reference : Reference) (projection : ProjectionId)
  deriving Repr, Inhabited

/-- A projection of a classifier. -/
structure Projection where
  info : Info
  classifier : ClassifierId
  children : List ProjectionElement
  deriving Repr, Inhabited

namespace Reference

instance : Codec Reference where
  encode
    | associationEnd id => .tagged "End" (encode id)
    | signature id => .tagged "Signature" (encode id)
  decode json :=
    match json.alternative? with
    | some ("End", some content) => (decode content).map associationEnd
    | some ("Signature", some content) => (decode content).map signature
    | _ => none

end Reference

namespace ProjectionElement

/-- The name of the property or reference. -/
def name : ProjectionElement → String
  | property name _ _ => name
  | reference name _ _ => name
  | projection name _ _ => name

mutual

def toJson : ProjectionElement → Json
  | property name header id =>
    .tagged "Property" (.object [("name", encode name), ("header", encode header),
      ("property", encode id)])
  | reference name target children =>
    .tagged "Reference" (.object [("name", encode name), ("reference", encode target),
      ("children", .list (allToJson children))])
  | projection name target id =>
    .tagged "Projection" (.object [("name", encode name), ("reference", encode target),
      ("projection", encode id)])

/-- The JSON forms of several elements. -/
def allToJson : List ProjectionElement → List Json
  | [] => []
  | element :: rest => element.toJson :: allToJson rest

end

/-- Read an element that nests at most `levels` deep; the content of an element is
always an object. -/
def ofJson? : (levels : Nat) → Json → Option ProjectionElement
  | 0, _ => none
  | levels + 1, json =>
    match json.alternative? with
    | some ("Property", some (.object fields)) => do
      let [name, header, id] ← (Json.object fields).components? ["name", "header", "property"]
        | none
      return property (← Codec.required name) (← Codec.required header) (← Codec.required id)
    | some ("Reference", some (.object fields)) => do
      let [name, target, children] ←
        (Json.object fields).components? ["name", "reference", "children"] | none
      let name ← Codec.required name
      let target ← Codec.required target
      match children with
      | some (.list items) => return reference name target (← items.mapM (ofJson? levels))
      | _ => none
    | some ("Projection", some (.object fields)) => do
      let [name, target, id] ←
        (Json.object fields).components? ["name", "reference", "projection"] | none
      return projection (← Codec.required name) (← Codec.required target) (← Codec.required id)
    | _ => none

instance : Codec ProjectionElement where
  encode := toJson
  decode json := ofJson? json.depth json

end ProjectionElement

instance : Codec Projection where
  encode projection := .object [("info", encode projection.info),
    ("classifier", encode projection.classifier), ("children", encode projection.children)]
  decode json := do
    let [info, classifier, children] ← json.components? ["info", "classifier", "children"] | none
    return ⟨← Codec.required info, ← Codec.required classifier, ← Codec.required children⟩

end DomainLang.Model
