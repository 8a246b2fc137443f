import DomainLang.Proofs.Places.Records

/-!
# Where resolved names stand

Looking up names keeps their places: the names in resolved paths, criteria and projections
have the spans that they were written with, and a path remembers the unit of its scope.
-/

namespace DomainLang

open Resolved

namespace Resolved

/-- The spans of the names in a path. -/
def MemberPath.spans (path : MemberPath) : List Span :=
  (match path.origin with
    | .this => []
    | .type name => name.spans) ++
    path.hops.flatMap (fun hop => hop.name.spans) ++ path.member.spans

mutual

/-- The spans of the names in an element of a projection. -/
def ProjectionElement.spans : ProjectionElement → List Span
  | .property name _ _ => name.spans
  | .reference name _ children => name.spans ++ ProjectionElement.allSpans children
  | .projection name _ projectionName _ => name.spans ++ projectionName.spans

/-- The spans of the names in elements of a projection. -/
def ProjectionElement.allSpans : List ProjectionElement → List Span
  | [] => []
  | element :: rest => element.spans ++ ProjectionElement.allSpans rest

end

theorem ProjectionElement.allSpans_eq (elements : List ProjectionElement) :
    ProjectionElement.allSpans elements = elements.flatMap ProjectionElement.spans := by
  induction elements with
  | nil => rfl
  | cons element rest ih => simp [allSpans, ih]

end Resolved

namespace Program

variable {program : Program} {registry : Registry}

/-- A path stands where it is written. -/
theorem map_name_followHops (current : Resolution ClassifierIndex)
    (names : List Syntax.Identifier) :
    (program.followHops current names).1.map Hop.name = names := by
  induction names generalizing current with
  | nil => rfl
  | cons name rest ih => simp [followHops, ih]

theorem spans_followHops (current : Resolution ClassifierIndex) (names : List Syntax.Identifier) :
    (program.followHops current names).1.flatMap (fun hop => hop.name.spans) =
      names.flatMap Syntax.Identifier.spans := by
  rw [← List.flatMap_map, map_name_followHops]

theorem spans_resolveThisPath (this : Resolution ClassifierIndex) (unit : UnitId)
    (path : Syntax.ThisPath) : (program.resolveThisPath this unit path).spans ⊆ path.spans := by
  intro span
  simp only [MemberPath.spans, resolveThisPath, resolvePath, spans_followHops,
    Syntax.ThisPath.spans, List.mem_append, List.not_mem_nil]
  tauto

theorem spans_resolveTypePath (unit : UnitId) (path : Syntax.TypePath) :
    (program.resolveTypePath registry unit path).spans ⊆ path.spans := by
  intro span
  simp only [MemberPath.spans, resolveTypePath, resolvePath, spans_followHops,
    Syntax.TypePath.spans, List.mem_append]
  tauto

/-- The path of an operand stands where the operand is written. -/
theorem path_resolveValue {scope : Scope} {operand : Syntax.Value} {path : MemberPath}
    (found : (program.resolveValue registry scope operand).path? = some path) :
    path.unit = scope.unit ∧ path.spans ⊆ operand.spans := by
  cases operand with
  | thisMember written =>
    cases found
    exact ⟨rfl, spans_resolveThisPath ..⟩
  | typeMember written =>
    cases found
    exact ⟨rfl, spans_resolveTypePath ..⟩
  | _ => cases found

/-- The name of a variable stands where the operand is written. -/
theorem variable_resolveValue {scope : Scope} {operand : Syntax.Value}
    {use : Syntax.Identifier × Resolution ParameterIndex}
    (found : (program.resolveValue registry scope operand).parameterUse? = some use) :
    use.1.span ∈ operand.spans := by
  cases operand with
  | «variable» node name =>
    cases found
    simp [Syntax.Value.spans, Syntax.Identifier.spans]
  | _ => cases found

/-- The paths of criteria stand where the criteria are written. -/
theorem path_resolveCriteria {scope : Scope} {criteria : Syntax.Criteria} {path : MemberPath}
    (member : path ∈ (program.resolveCriteria registry scope criteria).memberPaths) :
    path.unit = scope.unit ∧ path.spans ⊆ criteria.spans := by
  induction criteria with
  | all node => simp [resolveCriteria, Criteria.memberPaths, Criteria.expressions,
      Criteria.ownPaths] at member
  | and node left right first second | or node left right first second =>
    simp only [resolveCriteria, Criteria.memberPaths, Criteria.expressions, Criteria.ownPaths,
      List.flatMap_cons, List.nil_append, List.flatMap_append, List.mem_append] at member
    rcases member with inLeft | inRight
    · obtain ⟨unit, subset⟩ := first inLeft
      refine ⟨unit, fun span inside => ?_⟩
      simp [Syntax.Criteria.spans, subset inside]
    · obtain ⟨unit, subset⟩ := second inRight
      refine ⟨unit, fun span inside => ?_⟩
      simp [Syntax.Criteria.spans, subset inside]
  | operator node source mark target =>
    simp only [resolveCriteria, Criteria.memberPaths, Criteria.expressions, Criteria.ownPaths,
      List.flatMap_cons, List.flatMap_nil, List.append_nil, List.mem_filterMap, List.mem_cons,
      List.not_mem_nil, or_false] at member
    obtain ⟨operand, rfl | rfl, found⟩ := member
    · obtain ⟨unit, subset⟩ := path_resolveValue found
      refine ⟨unit, fun span inside => ?_⟩
      simp [Syntax.Criteria.spans, subset inside]
    · obtain ⟨unit, subset⟩ := path_resolveValue found
      refine ⟨unit, fun span inside => ?_⟩
      simp [Syntax.Criteria.spans, subset inside]
  | edgePoint node written =>
    simp only [resolveCriteria, Criteria.memberPaths, Criteria.expressions, Criteria.ownPaths,
      List.flatMap_cons, List.flatMap_nil, List.append_nil, List.mem_singleton] at member
    subst member
    exact ⟨rfl, List.Subset.trans (spans_resolveThisPath ..) (List.subset_append_right ..)⟩

/-- The variables of criteria stand where the criteria are written. -/
theorem variable_resolveCriteria {scope : Scope} {criteria : Syntax.Criteria}
    {use : Syntax.Identifier × Resolution ParameterIndex}
    (member : use ∈ (program.resolveCriteria registry scope criteria).parameterUses) :
    use.1.span ∈ criteria.spans := by
  induction criteria with
  | all node | edgePoint node written => simp [resolveCriteria, Criteria.parameterUses,
      Criteria.expressions, Criteria.ownParameterUses] at member
  | and node left right first second | or node left right first second =>
    simp only [resolveCriteria, Criteria.parameterUses, Criteria.expressions,
      Criteria.ownParameterUses, List.flatMap_cons, List.nil_append, List.flatMap_append,
      List.mem_append] at member
    rcases member with inLeft | inRight
    · simp [Syntax.Criteria.spans, first inLeft]
    · simp [Syntax.Criteria.spans, second inRight]
  | operator node source mark target =>
    simp only [resolveCriteria, Criteria.parameterUses, Criteria.expressions,
      Criteria.ownParameterUses, List.flatMap_cons, List.flatMap_nil, List.append_nil,
      List.mem_filterMap, List.mem_cons, List.not_mem_nil, or_false] at member
    obtain ⟨operand, rfl | rfl, found⟩ := member
    · simp [Syntax.Criteria.spans, variable_resolveValue found]
    · simp [Syntax.Criteria.spans, variable_resolveValue found]

/-- The comparisons of criteria stand where the criteria are written. -/
theorem operator_resolveCriteria {scope : Scope} {criteria : Syntax.Criteria}
    {source target : Value} {comparison : Operator} {span : Span}
    (member : .operator source comparison target span ∈
      (program.resolveCriteria registry scope criteria).expressions) :
    span ∈ criteria.spans := by
  induction criteria with
  | all node | edgePoint node written => simp [resolveCriteria, Criteria.expressions] at member
  | and node left right first second | or node left right first second =>
    simp only [resolveCriteria, Criteria.expressions, List.mem_cons, reduceCtorEq,
      List.mem_append, false_or] at member
    rcases member with inLeft | inRight
    · simp [Syntax.Criteria.spans, first inLeft]
    · simp [Syntax.Criteria.spans, second inRight]
  | operator node written mark other =>
    simp only [resolveCriteria, Criteria.expressions, List.mem_singleton,
      Criteria.operator.injEq] at member
    simp [Syntax.Criteria.spans, Syntax.Node.spans, member.2.2.2]

mutual

/-- The names in an element of a projection stand where the element is written. -/
theorem spans_resolveElement (classifier : Resolution ClassifierIndex) :
    ∀ element : Syntax.ProjectionElement,
      (program.resolveElement registry classifier element).spans ⊆ element.spans
  | .property _ _ _ => List.subset_append_right ..
  | .reference _ name children => by
    intro span
    have inner := spans_resolveElements ((classifier.andThen
      (program.findReference name.name)).andThen program.referenceTarget) children
    simp only [resolveElement, ProjectionElement.spans, Syntax.ProjectionElement.spans,
      List.mem_append]
    rintro (ofName | ofChild)
    · exact .inl (.inr ofName)
    · exact .inr (inner ofChild)
  | .projection _ _ _ => by
    intro span
    simp only [resolveElement, ProjectionElement.spans, Syntax.ProjectionElement.spans,
      List.mem_append]
    tauto

theorem spans_resolveElements (classifier : Resolution ClassifierIndex) :
    ∀ elements : List Syntax.ProjectionElement,
      ProjectionElement.allSpans (program.resolveElements registry classifier elements) ⊆
        Syntax.ProjectionElement.allSpans elements
  | [] => List.Subset.refl _
  | element :: rest => by
    intro span
    simp only [resolveElements, ProjectionElement.allSpans, Syntax.ProjectionElement.allSpans,
      List.mem_append]
    rintro (first | later)
    · exact .inl (spans_resolveElement classifier element first)
    · exact .inr (spans_resolveElements classifier rest later)

end

end Program

end DomainLang
