import DomainLang.Proofs.Syntax.Stripped

/-!
# The nodes of a tree

The nodes of every kind of syntax, each node before those of its parts, and the
consecutive ids that as many nodes get. Ids are machine words, so nodes get distinct ids
only as long as there are no more nodes than words.
-/

namespace DomainLang.Syntax

def ThisPath.nodes (path : ThisPath) : List Node := [path.toNode]

def TypePath.nodes (path : TypePath) : List Node := [path.toNode]

def LiteralNode.nodes (constant : LiteralNode) : List Node := [constant.toNode]

def Value.nodes : Value → List Node
  | .thisMember path => path.nodes
  | .typeMember path => path.nodes
  | .variable node _ => [node]
  | .literal constant => constant.nodes
  | .literalList node values => node :: values.flatMap LiteralNode.nodes
  | .user node => [node]

def Criteria.nodes : Criteria → List Node
  | .all node => [node]
  | .and node left right => node :: (left.nodes ++ right.nodes)
  | .or node left right => node :: (left.nodes ++ right.nodes)
  | .operator node source _ target => node :: (source.nodes ++ target.nodes)
  | .edgePoint node member => node :: member.nodes

def OrderByMember.nodes (member : OrderByMember) : List Node :=
  member.toNode :: member.path.nodes

def OrderBy.nodes (ordering : OrderBy) : List Node :=
  ordering.toNode :: ordering.members.flatMap OrderByMember.nodes

/-- The nodes of an ordering that may be absent. -/
def OrderBy.optionalNodes : Option OrderBy → List Node
  | none => []
  | some ordering => ordering.nodes

def ModifierMark.nodes (mark : ModifierMark) : List Node := [mark.toNode]

def Validation.nodes (bound : Validation) : List Node := [bound.toNode]

def Property.nodes (property : Property) : List Node :=
  property.toNode :: (property.modifiers.flatMap ModifierMark.nodes ++
    property.validations.flatMap Validation.nodes)

def EndSignature.nodes (signature : EndSignature) : List Node :=
  signature.toNode :: signature.modifiers.flatMap ModifierMark.nodes

def Member.nodes : Member → List Node
  | .property declaration => declaration.nodes
  | .endSignature signature => signature.nodes

def EnumerationLiteral.nodes (literal : EnumerationLiteral) : List Node := [literal.toNode]

def Enumeration.nodes (enumeration : Enumeration) : List Node :=
  enumeration.toNode :: enumeration.literals.flatMap EnumerationLiteral.nodes

def Interface.nodes (interface : Interface) : List Node :=
  interface.toNode :: (interface.modifiers.flatMap ModifierMark.nodes ++
    interface.members.flatMap Member.nodes)

def Class.nodes (declaration : Class) : List Node :=
  declaration.toNode :: (declaration.modifiers.flatMap ModifierMark.nodes ++
    declaration.members.flatMap Member.nodes)

def AssociationEnd.nodes (declaration : AssociationEnd) : List Node :=
  declaration.toNode :: (declaration.modifiers.flatMap ModifierMark.nodes ++
    OrderBy.optionalNodes declaration.orderBy)

def Association.nodes (association : Association) : List Node :=
  association.toNode :: (association.source.nodes ++ (association.target.nodes ++
    association.relationship.nodes))

mutual

def ProjectionElement.nodes : ProjectionElement → List Node
  | .property node _ _ => [node]
  | .reference node _ children => node :: ProjectionElement.allNodes children
  | .projection node _ _ => [node]

def ProjectionElement.allNodes : List ProjectionElement → List Node
  | [] => []
  | element :: rest => element.nodes ++ ProjectionElement.allNodes rest

end

def Projection.nodes (projection : Projection) : List Node :=
  projection.toNode :: ProjectionElement.allNodes projection.children

def Parameter.nodes (parameter : Parameter) : List Node := [parameter.toNode]

def UrlSegment.nodes : UrlSegment → List Node
  | .constant _ => []
  | .parameter declaration => declaration.nodes

def Clause.nodes (clause : Clause) : List Node :=
  clause.toNode :: clause.criteria.nodes

def Service.nodes (service : Service) : List Node :=
  service.toNode :: (service.clauses.flatMap Clause.nodes ++
    OrderBy.optionalNodes service.orderBy)

def Url.nodes (url : Url) : List Node :=
  url.toNode :: (url.path.flatMap UrlSegment.nodes ++
    (url.queryParameters.flatMap Parameter.nodes ++ url.services.flatMap Service.nodes))

def ServiceGroup.nodes (group : ServiceGroup) : List Node :=
  group.toNode :: group.urls.flatMap Url.nodes

def Declaration.nodes : Declaration → List Node
  | .enumeration declaration => declaration.nodes
  | .interface declaration => declaration.nodes
  | .klass declaration => declaration.nodes
  | .association declaration => declaration.nodes
  | .projection declaration => declaration.nodes
  | .serviceGroup declaration => declaration.nodes

/-- The nodes of a tree. -/
def SourceTree.nodes (tree : SourceTree) : List Node :=
  tree.package.toNode :: tree.elements.flatMap Declaration.nodes

namespace Numbering

/-- The id after those of the given nodes. -/
def advanced (start : UInt32) : List Node → UInt32
  | [] => start
  | _ :: rest => advanced (start + 1) rest

/-- Consecutive ids, one for each of the given nodes. -/
def idsFrom (start : UInt32) : List Node → List NodeId
  | [] => []
  | _ :: rest => ⟨start⟩ :: idsFrom (start + 1) rest

@[simp] theorem advanced_append (start : UInt32) (first second : List Node) :
    advanced start (first ++ second) = advanced (advanced start first) second := by
  induction first generalizing start with
  | nil => rfl
  | cons _ _ ih => exact ih (start + 1)

@[simp] theorem idsFrom_append (start : UInt32) (first second : List Node) :
    idsFrom start (first ++ second) =
      idsFrom start first ++ idsFrom (advanced start first) second := by
  induction first generalizing start with
  | nil => rfl
  | cons _ _ ih => simp [idsFrom, advanced, ih]

@[simp] theorem length_idsFrom (start : UInt32) (nodes : List Node) :
    (idsFrom start nodes).length = nodes.length := by
  induction nodes generalizing start with
  | nil => rfl
  | cons _ _ ih => simp [idsFrom, ih]

/-- An id lies less far from the first than there are nodes. -/
theorem offset_of_mem_idsFrom {start : UInt32} {nodes : List Node} {id : NodeId}
    (member : id ∈ idsFrom start nodes) :
    ∃ offset < nodes.length, id.value = start + .ofNat offset := by
  induction nodes generalizing start with
  | nil => cases member
  | cons _ nodes ih =>
    rcases List.mem_cons.mp member with rfl | later
    · exact ⟨0, by simp, by simp⟩
    · obtain ⟨offset, below, same⟩ := ih later
      refine ⟨offset + 1, by simpa using below, ?_⟩
      rw [same, UInt32.ofNat_add, UInt32.add_assoc, UInt32.add_comm 1]
      rfl

/-- Nodes that are not more than the ids get distinct ones. -/
theorem nodup_idsFrom (start : UInt32) (nodes : List Node) (small : nodes.length ≤ UInt32.size) :
    (idsFrom start nodes).Nodup := by
  induction nodes generalizing start with
  | nil => exact List.nodup_nil
  | cons _ nodes ih =>
    simp only [List.length_cons] at small
    refine List.nodup_cons.mpr ⟨fun repeated => ?_, ih _ (by omega)⟩
    obtain ⟨offset, below, same⟩ := offset_of_mem_idsFrom repeated
    have apart : (1 + UInt32.ofNat offset).toNat = 0 := by
      have same : start + 0 = start + (1 + UInt32.ofNat offset) := by
        simpa [UInt32.add_assoc] using same
      rw [← (UInt32.add_right_inj start).mp same]
      rfl
    simp only [UInt32.toNat_add, UInt32.toNat_ofNat', UInt32.toNat_one, UInt32.size] at *
    omega

end Numbering
end DomainLang.Syntax
