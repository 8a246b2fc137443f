import DomainLang.Source.Span

/-!
# Syntax nodes

Every declaration, clause and expression of a tree is a node: it has an id,
unique within its tree once the tree is numbered, and a span. Names are not
nodes; they have a span only.
-/

namespace DomainLang

/-- The identity of a node within one tree; zero until the tree is numbered. -/
structure NodeId where
  value : UInt32
  deriving DecidableEq, Repr, Inhabited

namespace NodeId

/-- The id of a node that was not numbered yet. -/
def unassigned : NodeId := ⟨0⟩

/-- Whether numbering has reached the node. -/
def isAssigned (id : NodeId) : Bool :=
  id ≠ unassigned

instance : Codec NodeId where
  encode id := encode id.value
  decode json := (decode json).map NodeId.mk

end NodeId

namespace Syntax

/-- What every node has. -/
structure Node where
  id : NodeId
  span : Span
  deriving DecidableEq, Repr, Inhabited

namespace Node

/-- A node that stands nowhere and has no number. -/
def bare : Node := ⟨.unassigned, .placeholder⟩

/-- The components that open the object of every node. -/
def fields (node : Node) : List (String × Json) :=
  [("id", encode node.id), ("span", encode node.span)]

/-- The node at the head of the components of an object. -/
def ofComponents? (id span : Option Json) : Option Node := do
  return ⟨← Codec.required id, ← Codec.required span⟩

instance : Codec Node where
  encode node := .object node.fields
  decode json := do
    let [id, span] ← json.components? ["id", "span"] | none
    ofComponents? id span

end Node

/-- A name where it was written. -/
structure Identifier where
  name : String
  span : Span
  deriving DecidableEq, Repr, Inhabited

namespace Identifier

/-- A name that stands nowhere. -/
def bare (name : String) : Identifier := ⟨name, .placeholder⟩

instance : Codec Identifier where
  encode identifier :=
    .object [("name", encode identifier.name), ("span", encode identifier.span)]
  decode json := do
    let [name, span] ← json.components? ["name", "span"] | none
    return ⟨← Codec.required name, ← Codec.required span⟩

end Identifier
end Syntax
end DomainLang
