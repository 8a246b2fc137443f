import DomainLang.Proofs.Inference.Flawless
import DomainLang.Proofs.Places.Diagnostics

/-!
# What stands in source files and what in fragments

The id of a unit tells whether the unit is a source file or a fragment, and which inference
made the fragment. What was given stands in source files. The rest are inferred properties and
inferred clauses, and each stands in a fragment of its inference.
-/

namespace DomainLang

open Resolved

namespace Workspace

/-- Every unit with the id is a source file. -/
def IsSource (workspace : Workspace) (id : UnitId) : Prop :=
  ∀ unit ∈ workspace.units, unit.id = id → unit.expansion = none

/-- Every unit with the id is a fragment that an inference made. -/
def IsFragment (workspace : Workspace) (inference : Inference) (id : UnitId) : Prop :=
  ∀ unit ∈ workspace.units, unit.id = id →
    ∃ expansion, unit.expansion = some expansion ∧ expansion.inference = inference

variable {workspace : Workspace} {trees : List (String × Syntax.SourceTree)}
  {recorded : List RecordedDeclaration} {fragments : List CompilationUnit}

namespace Linked

variable (linked : workspace.Linked (SourceSet.ofTrees trees).units recorded fragments)

include linked

theorem isFragment_of_expansion {fragment : CompilationUnit} (member : fragment ∈ workspace.units)
    {expansion : Expansion} (made : fragment.expansion = some expansion) :
    workspace.IsFragment expansion.inference fragment.id := by
  intro unit among same
  rw [linked.unit_eq_of_id among member same]
  exact ⟨expansion, made, rfl⟩

/-- What was given is written in a source file, which has the id of no fragment. -/
theorem isSource {id : UnitId} {spans : List Span}
    (written : WrittenIn (SourceSet.ofTrees trees).units id spans) : workspace.IsSource id := by
  obtain ⟨source, given, rfl, -⟩ := written
  obtain ⟨more, allUnits, -⟩ := linked.units_eq
  intro unit member same
  rw [linked.unit_eq_of_id member (by simp [allUnits, given]) same]
  obtain ⟨position, entry, -, rfl⟩ := SourceSet.mem_units_ofTrees.mp given
  rfl

/-- A property is written in a source file, or it is one that was inferred and stands in a
fragment. -/
theorem property_cases {index : PropertyIndex}
    (holds : workspace.program.properties.Holds index) :
    ((workspace.program.properties.get index).inferred = none ∧
      workspace.IsSource (workspace.program.properties.get index).context.unit) ∨
    ((∃ family part, Temporal.Infers family part (workspace.program.properties.get index)) ∧
      workspace.IsFragment .temporalProperties
        (workspace.program.properties.get index).context.unit) := by
  rcases linked.property_origin holds with
    ⟨written, entry, entryMember, unit, -⟩ |
      ⟨fragment, fragmentMember, unit, members, body, among⟩
  · rw [← unit]
    exact .inl ⟨written, linked.isSource (linked.written_recorded entryMember)⟩
  · obtain ⟨_, _, isBody, -, expansion, each, -⟩ := linked.expands fragment fragmentMember
    cases body.symm.trans isBody
    obtain ⟨family, known, part, stripped⟩ := each _ among
    obtain ⟨more, allUnits, -⟩ := linked.units_eq
    rw [← unit]
    exact .inr ⟨⟨family, part, Temporal.infers_of_stripped known
        (Syntax.Member.property.inj stripped)⟩,
      linked.isFragment_of_expansion (by simp [allUnits, fragmentMember]) expansion⟩

/-- A clause is written in the file of its service, or it was inferred and stands in a
fragment. -/
theorem clause_cases {index : ServiceIndex} (holds : workspace.program.services.Holds index)
    {clause : Clause} (member : clause ∈ (workspace.program.services.get index).clauses) :
    (clause.inferred = none ∧ workspace.IsSource clause.unit) ∨
      (clause.inferred.isSome ∧ workspace.IsFragment .serviceCriteria clause.unit) := by
  cases inferred : clause.inferred with
  | some inference =>
    obtain ⟨fragment, among, named, body⟩ :=
      linked.inferredClauses index holds clause member (by simp [inferred])
    obtain ⟨more, allUnits, each⟩ := linked.units_eq
    -- Only the last units hold clauses.
    have late : fragment ∈ more := by
      rw [allUnits, List.mem_append, List.mem_append] at among
      rcases among with (isSource | isTemporal) | late
      · obtain ⟨_, _, _, rfl⟩ := SourceSet.mem_units_ofTrees.mp isSource
        cases body
      · obtain ⟨_, _, ofMembers, -⟩ := linked.expands fragment isTemporal
        rw [body] at ofMembers
        cases ofMembers
      · exact late
    obtain ⟨_, _, -, -, expansion, -⟩ := each fragment late
    have isFragment := linked.isFragment_of_expansion among expansion
    rw [named] at isFragment
    exact .inr ⟨rfl, isFragment⟩
  | none =>
    rw [((linked.coherent.clauses index holds).of_not_inferred member inferred).2]
    exact .inl ⟨rfl, linked.isSource (linked.written_service holds)⟩

end Linked

/-- After an analysis everything that was inferred is in order. -/
theorem Analysed.flawless {options : Options}
    (analysed : workspace.Analysed (SourceSet.ofTrees trees).units recorded fragments)
    (returns : Phase.analyze.Returns { options, units := (SourceSet.ofTrees trees).units } ()
      workspace.reportAll) : workspace.Flawless where
  properties := by
    intro index holds inferred
    rcases analysed.property_cases holds with ⟨written, -⟩ | ⟨⟨family, part, infers⟩, -⟩
    · rw [written] at inferred
      cases inferred
    · exact infers.propertyInOrder
  clauses := by
    intro index holds clause member inferred
    obtain ⟨missing, only⟩ := Service.missingClause?_of_inferred
      (Phase.inferredClauses_analyze returns holds) member inferred
    exact Service.clauseInOrder missing only
      (analysed.references.clauses index holds clause member)

end Workspace
end DomainLang
