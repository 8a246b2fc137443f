import DomainLang.Syntax.Classifier
import DomainLang.Syntax.Criteria

/-!
# Associations as written

An association has a source and a target end, each naming the class it points
at, and the criteria that relate two objects.
-/

namespace DomainLang.Syntax

structure AssociationEnd extends Node where
  name : Identifier
  target : Identifier
  multiplicity : Multiplicity
  modifiers : List ModifierMark
  orderBy : Option OrderBy
  deriving DecidableEq, Repr, Inhabited

structure Association extends Node where
  name : Identifier
  source : AssociationEnd
  target : AssociationEnd
  relationship : Criteria
  deriving DecidableEq, Repr, Inhabited

instance : Codec AssociationEnd where
  encode declaration := .object (declaration.toNode.fields ++
    [("name", encode declaration.name), ("class_ref", encode declaration.target),
      ("multiplicity", encode declaration.multiplicity),
      ("modifiers", encode declaration.modifiers), ("order_by", encode declaration.orderBy)])
  decode json := do
    let [id, span, name, target, multiplicity, modifiers, orderBy] ←
      json.components? ["id", "span", "name", "class_ref", "multiplicity", "modifiers",
        "order_by"] | none
    return ⟨← Node.ofComponents? id span, ← Codec.required name, ← Codec.required target,
      ← Codec.required multiplicity, ← Codec.required modifiers, ← Codec.optional orderBy⟩

instance : Codec Association where
  encode association := .object (association.toNode.fields ++
    [("name", encode association.name), ("source", encode association.source),
      ("target", encode association.target), ("relationship", encode association.relationship)])
  decode json := do
    let [id, span, name, source, target, relationship] ←
      json.components? ["id", "span", "name", "source", "target", "relationship"] | none
    return ⟨← Node.ofComponents? id span, ← Codec.required name, ← Codec.required source,
      ← Codec.required target, ← Codec.required relationship⟩

end DomainLang.Syntax
