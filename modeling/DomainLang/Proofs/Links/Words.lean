import DomainLang.Proofs.Places.References

/-!
# The words of resolved trees

A resolved path, condition, ordering or projection still has the names it was made of. Its words
are the syntax tree, without ids and places, that one gets by forgetting what the names were
resolved to. Looking up names keeps the words: they are those of the stripped tree.
-/

namespace DomainLang

namespace Resolved

/-- The words of a path that starts at the object at hand. -/
def MemberPath.thisPath (path : MemberPath) : Syntax.ThisPath where
  toNode := .bare
  hops := path.hops.map (·.name.stripped)
  member := path.member.stripped

/-- The words of a path that starts at a named classifier. -/
def MemberPath.typePath (path : MemberPath) (classifier : Syntax.Identifier) :
    Syntax.TypePath where
  toNode := .bare
  classifier := classifier.stripped
  hops := path.hops.map (·.name.stripped)
  member := path.member.stripped

def Value.words : Value → Syntax.Value
  | .member path =>
    match path.origin with
    | .this => .thisMember path.thisPath
    | .type name => .typeMember (path.typePath name)
  | .variable name _ => .named name.name
  | .literal constant _ => .ofLiteral constant
  | .literals constants _ => .ofLiterals constants
  | .user _ => .user .bare

def Criteria.words : Criteria → Syntax.Criteria
  | .all _ => .everything
  | .and left right => .both left.words right.words
  | .or left right => .either left.words right.words
  | .operator source comparison target _ => .compare comparison source.words target.words
  | .edgePoint path _ => .edgePoint .bare path.thisPath

def OrderBy.words (ordering : OrderBy) : Syntax.OrderBy where
  toNode := .bare
  members := ordering.members.map fun member => ⟨.bare, member.path.thisPath, member.direction⟩

mutual

def ProjectionElement.words : ProjectionElement → Syntax.ProjectionElement
  | .property name header _ => .property .bare name.stripped header
  | .reference name _ children =>
    .reference .bare name.stripped (ProjectionElement.allWords children)
  | .projection name _ projectionName _ => .projection .bare name.stripped projectionName.stripped

def ProjectionElement.allWords : List ProjectionElement → List Syntax.ProjectionElement
  | [] => []
  | element :: rest => element.words :: ProjectionElement.allWords rest

end

end Resolved

namespace Program

open Resolved

variable {program : Program} {registry : Registry}

theorem thisPath_resolveThisPath (this : Resolution ClassifierIndex) (unit : UnitId)
    (path : Syntax.ThisPath) :
    (program.resolveThisPath this unit path).thisPath = path.stripped := by
  have names := program.map_name_followHops this path.hops
  simp only [resolveThisPath, resolvePath, MemberPath.thisPath, Syntax.ThisPath.stripped]
  nth_rewrite 2 [← names]
  rw [List.map_map]
  rfl

theorem typePath_resolveTypePath (unit : UnitId) (path : Syntax.TypePath) :
    (program.resolveTypePath registry unit path).typePath path.classifier = path.stripped := by
  have names :=
    program.map_name_followHops (registry.findClassifier path.classifier.name) path.hops
  simp only [resolveTypePath, resolvePath, MemberPath.typePath, Syntax.TypePath.stripped]
  nth_rewrite 2 [← names]
  rw [List.map_map]
  rfl

/-- Looking up the names in an operand keeps its words. -/
theorem words_resolveValue (scope : Scope) (operand : Syntax.Value) :
    (program.resolveValue registry scope operand).words = operand.stripped := by
  cases operand with
  | thisMember path => exact congrArg Syntax.Value.thisMember (thisPath_resolveThisPath ..)
  | typeMember path => exact congrArg Syntax.Value.typeMember (typePath_resolveTypePath ..)
  | literalList node constants =>
    simp only [resolveValue, Value.words, Syntax.Value.ofLiterals, Syntax.Value.stripped,
      List.map_map]
    rfl
  | «variable» | literal | user => rfl

/-- Looking up the names in a condition keeps its words. -/
theorem words_resolveCriteria (scope : Scope) (criteria : Syntax.Criteria) :
    (program.resolveCriteria registry scope criteria).words = criteria.stripped := by
  induction criteria with
  | all => rfl
  | and _ left right ihLeft ihRight | or _ left right ihLeft ihRight =>
    rw [resolveCriteria, Criteria.words, ihLeft, ihRight]
    rfl
  | operator _ source mark target =>
    rw [resolveCriteria, Criteria.words, words_resolveValue, words_resolveValue]
    rfl
  | edgePoint _ member =>
    exact congrArg (Syntax.Criteria.edgePoint .bare) (thisPath_resolveThisPath ..)

/-- Looking up the names in an ordering keeps its words. -/
theorem words_resolveOrderBy (this : Resolution ClassifierIndex) (unit : UnitId)
    (ordering : Syntax.OrderBy) :
    (program.resolveOrderBy this unit ordering).words = ordering.stripped := by
  simp only [resolveOrderBy, OrderBy.words, Syntax.OrderBy.stripped, List.map_map]
  congr 1
  apply List.map_congr_left
  intro member _
  simp only [Function.comp_apply, thisPath_resolveThisPath, Syntax.OrderByMember.stripped]

mutual

/-- Looking up the names in an element of a projection keeps its words. -/
theorem words_resolveElement (classifier : Resolution ClassifierIndex) :
    ∀ element : Syntax.ProjectionElement,
      (program.resolveElement registry classifier element).words = element.stripped
  | .property .. => by simp only [resolveElement, ProjectionElement.words,
      Syntax.ProjectionElement.stripped]
  | .reference _ name children => by
    simp only [resolveElement, ProjectionElement.words, Syntax.ProjectionElement.stripped,
      allWords_resolveElements _ children]
  | .projection .. => by simp only [resolveElement, ProjectionElement.words,
      Syntax.ProjectionElement.stripped]

theorem allWords_resolveElements (classifier : Resolution ClassifierIndex) :
    ∀ elements : List Syntax.ProjectionElement,
      ProjectionElement.allWords (program.resolveElements registry classifier elements) =
        Syntax.ProjectionElement.strippedAll elements
  | [] => by simp only [resolveElements, ProjectionElement.allWords,
      Syntax.ProjectionElement.strippedAll]
  | element :: rest => by
    simp only [resolveElements, ProjectionElement.allWords, Syntax.ProjectionElement.strippedAll,
      words_resolveElement classifier element, allWords_resolveElements classifier rest]

end

end Program
end DomainLang
