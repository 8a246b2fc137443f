import DomainLang.Proofs.Expansion
import DomainLang.Proofs.Syntax.Numbered

/-!
# Inferred clauses

The inference of clauses adds to each service at most one clause, which is the one that
the verb of the service asks for. Nothing else in the program changes, and no context and
no name is registered.
-/

namespace DomainLang

open Resolved

/-- A path that was made from a text stands nowhere. -/
theorem Syntax.ThisPath.stripped_ofText (path : String) :
    (ThisPath.ofText path).stripped = ThisPath.ofText path := by
  have hops (names : List String) :
      ((names.map Identifier.bare).dropLast).map Identifier.stripped =
        (names.map Identifier.bare).dropLast := by
    rw [← List.map_dropLast, List.map_map]
    rfl
  have member (names : List String) :
      ((names.map Identifier.bare).getLastD (.bare "")).stripped =
        (names.map Identifier.bare).getLastD (.bare "") := by
    induction names using List.reverseRecOn with
    | nil => rfl
    | append_singleton names name _ => simp [Identifier.stripped, Identifier.bare]
  simp only [ofText, ThisPath.stripped, hops, member]

namespace Service

theorem missingClause?_eq_some {registry : Registry} {program : Program}
    {service : Resolved.Service} {clause : Syntax.Clause}
    (missing : missingClause? registry program service = some clause) :
    (∃ versionEnd, versionClause service.declaration.verb versionEnd = some clause) ∧
      service.hasClause clause.kind = false := by
  simp only [missingClause?, Option.bind_eq_bind, Option.bind_eq_some_iff] at missing
  obtain ⟨klass, -, versionEnd, -, made, found, asked⟩ := missing
  split at asked
  · next wanted =>
    obtain rfl := Option.some.inj asked
    exact ⟨⟨_, found⟩, by simpa using (Bool.and_eq_true_iff.mp wanted).2⟩
  · cases asked

/-- A clause that is inferred stands nowhere. -/
theorem stripped_versionClause {verb : Verb} {versionEnd : String} {clause : Syntax.Clause}
    (made : versionClause verb versionEnd = some clause) : clause.stripped = clause := by
  have sameNumber : (Syntax.Criteria.equal (.this (versionEnd ++ ".number"))
      (.named versionParameter)).stripped =
        .equal (.this (versionEnd ++ ".number")) (.named versionParameter) := by
    simp only [Syntax.Criteria.equal, Syntax.Criteria.compare, Syntax.Criteria.stripped,
      Syntax.Value.this, Syntax.Value.named, Syntax.Value.stripped,
      Syntax.ThisPath.stripped_ofText]
    rfl
  cases verb with
  | get =>
    cases made
    simp only [Syntax.Clause.stripped, Syntax.Clause.bare, Syntax.Criteria.both,
      Syntax.Criteria.atEdge, Syntax.Criteria.stripped, Syntax.ThisPath.stripped_ofText, sameNumber]
  | put | patch | delete =>
    cases made
    simp only [Syntax.Clause.stripped, Syntax.Clause.bare, sameNumber]
  | post => cases made

end Service

/-- A fragment holds a clause of a service and stands where the service does. -/
def Program.ServiceFragment (program : Program) (fragment : CompilationUnit) : Prop :=
  ∃ service clause, fragment.body = .clauses service [clause] ∧
    program.services.Holds service ∧
    fragment.expansion = some ⟨(program.services.get service).context.unit, .serviceCriteria,
      (program.services.get service).context⟩ ∧
    ∀ span ∈ clause.spans, span = (program.services.get service).declaration.span

theorem Program.ServiceFragment.of_keeps {before after : Program} (keeps : before.Keeps after)
    {fragment : CompilationUnit} (made : before.ServiceFragment fragment) :
    after.ServiceFragment fragment := by
  obtain ⟨service, clause, body, holds, expansion, placed⟩ := made
  obtain ⟨held, same⟩ := keeps.services service holds
  have context := congrArg Service.context same
  have declaration := congrArg Service.declaration same
  change (after.services.get service).context = (before.services.get service).context at context
  change (after.services.get service).declaration = (before.services.get service).declaration
    at declaration
  rw [← context] at expansion
  rw [← declaration] at placed
  exact ⟨service, clause, body, held, expansion, placed⟩

namespace Workspace

/-- A clause of a service is the clause of a fragment. -/
def HasClause (workspace : Workspace) (service : ServiceIndex) (clause : Clause) : Prop :=
  ∃ fragment ∈ workspace.units, fragment.id = clause.unit ∧
    fragment.body = .clauses service [clause.declaration]

/-- Clauses were added to services and fragments to the units. -/
structure InfersClauses (before after : Workspace) : Prop where
  surroundings : after = { before with units := after.units, program := after.program }
  units : ∃ fragments, after.units = before.units ++ fragments ∧
    ∀ fragment ∈ fragments, after.program.ServiceFragment fragment
  distinct : (before.units.map (·.id)).Nodup → (after.units.map (·.id)).Nodup
  clauses : ∀ service, before.program.services.Holds service →
    ∀ clause ∈ (after.program.services.get service).clauses,
      clause ∈ (before.program.services.get service).clauses ∨ after.HasClause service clause
  program : after.program = { before.program with services := after.program.services }
  size : after.program.services.size = before.program.services.size
  keeps : before.program.Keeps after.program
  coherent : before.program.Coherent none none → after.program.Coherent none none

namespace InfersClauses

variable {before middle after : Workspace}

theorem refl (workspace : Workspace) : InfersClauses workspace workspace :=
  ⟨rfl, ⟨[], by simp⟩, id, fun _ _ _ => .inl, rfl, rfl, .refl _, id⟩

theorem trans (first : InfersClauses before middle) (second : InfersClauses middle after) :
    InfersClauses before after where
  surroundings := by rw [second.surroundings, first.surroundings]
  units := by
    obtain ⟨fragments, units, each⟩ := first.units
    obtain ⟨more, moreUnits, others⟩ := second.units
    refine ⟨fragments ++ more, by rw [moreUnits, units, List.append_assoc], ?_⟩
    intro fragment member
    rcases List.mem_append.mp member with early | late
    · exact (each fragment early).of_keeps second.keeps
    · exact others fragment late
  distinct := second.distinct ∘ first.distinct
  clauses := by
    obtain ⟨more, moreUnits, -⟩ := second.units
    intro service holds clause member
    rcases second.clauses service (first.keeps.services service holds).1 clause member with
      earlier | added
    · rcases first.clauses service holds clause earlier with written | ⟨fragment, among, placed⟩
      · exact .inl written
      · exact .inr ⟨fragment, by simp [moreUnits, among], placed⟩
    · exact .inr added
  program := by rw [second.program, first.program]
  size := second.size.trans first.size
  keeps := first.keeps.trans second.keeps
  coherent := second.coherent ∘ first.coherent

theorem same (infers : InfersClauses before after) :
    before.program.SameTopLevel after.program := by
  rw [infers.program]
  exact ⟨rfl, rfl, rfl, rfl, rfl, rfl⟩

theorem names (infers : InfersClauses before after)
    (names : before.registry.Names before.program) : after.registry.Names after.program := by
  have kept := names.of_keeps infers.keeps infers.same
  rw [infers.surroundings]
  exact kept

/-- What expansions refer to stays there. -/
theorem expandable (infers : InfersClauses before after) (expandable : before.Expandable) :
    after.Expandable := by
  obtain ⟨fragments, units, -⟩ := infers.units
  have known {id : UnitId} (has : before.HasUnit id) : after.HasUnit id := by
    obtain ⟨unit, member, same⟩ := has
    exact ⟨unit, by simp [units, member], same⟩
  constructor
  case shallow =>
    rw [infers.surroundings]
    exact expandable.shallow
  case contexts =>
    have registry : after.registry = before.registry := by rw [infers.surroundings]
    rw [registry]
    exact fun key registered => known (expandable.contexts key registered)
  case classifiers =>
    rw [infers.program]
    exact fun classifier holds => known (expandable.classifiers classifier holds)
  case services =>
    intro service holds
    have held : before.program.services.Holds service := by
      simpa [Arena.Holds, infers.size] using holds
    have context := congrArg Service.context (infers.keeps.services service held).2
    have sameContext : (after.program.services.get service).context =
        (before.program.services.get service).context := context
    rw [sameContext]
    exact known (expandable.services service held)

end InfersClauses
end Workspace

namespace Phase

variable {before after : Workspace}

/-- Adding clauses to a service changes nothing that is written. -/
theorem keeps_addClause (program : Program) (index : ServiceIndex) (clause : Clause)
    (inferred : clause.inferred.isSome) :
    program.Keeps { program with
      services := program.services.modify index fun record =>
        { record with clauses := record.clauses ++ [clause] } } :=
  { Program.Keeps.refl program with
    services := by
      refine (Arena.Keeps.refl _).modify fun record => ?_
      cases by_ : clause.inferred with
      | none => simp [by_] at inferred
      | some _ => simp [Service.written, Service.unlinked, Clause.unlinked, by_] }

/-- A fragment with one clause has one clause, at its anchor. -/
theorem exists_numbered_clause (span : Span) (clause : Syntax.Clause) :
    ∃ numbered, Syntax.Numbering.output (Syntax.Numbering.clauses (.anchor span) [clause]) {} =
      [numbered] ∧ numbered.stripped = clause.stripped ∧
        ∀ place ∈ numbered.spans, place = span := by
  obtain ⟨⟨-, -, moved, -⟩, stripped⟩ :=
    Syntax.Numbering.numbers_clauses (.anchor span) {} [clause]
  rw [List.map_cons, List.map_nil, List.map_eq_singleton_iff] at stripped
  obtain ⟨numbered, single, same⟩ := stripped
  refine ⟨numbered, single, same, fun place member => ?_⟩
  have spans := moved fun _ => rfl
  simp only [single, List.flatMap_singleton] at spans
  rw [spans] at member
  obtain ⟨original, -, rfl⟩ := List.mem_map.mp member
  rfl

/-- The fragment that expands a service. -/
def serviceFragment (workspace : Workspace) (parent : CompilationUnit) (index : ServiceIndex)
    (clause : Syntax.Clause) : CompilationUnit :=
  workspace.fragment parent .serviceCriteria (workspace.program.services.get index).context
    (workspace.program.services.get index).declaration.span (.clauses index [clause])

theorem mergeFragment_serviceFragment (workspace : Workspace) (parent : CompilationUnit)
    (index : ServiceIndex) (clause : Syntax.Clause) :
    mergeFragment (serviceFragment workspace parent index clause) .serviceCriteria =
      inFrame (.service index) (declareClauses (serviceFragment workspace parent index clause).id
        index (some .serviceCriteria) (Syntax.Numbering.output (Syntax.Numbering.clauses
          (.anchor (workspace.program.services.get index).declaration.span) [clause]) {})) :=
  rfl

/-- Merging a fragment adds its clause. -/
theorem returns_mergeClause (before : Workspace) (parent : CompilationUnit) (index : ServiceIndex)
    (clause : Syntax.Clause) :
    ∃ numbered : Syntax.Clause, numbered.stripped = clause.stripped ∧
      (serviceFragment before parent index clause).body = .clauses index [numbered] ∧
      (∀ span ∈ numbered.spans,
        span = (before.program.services.get index).declaration.span) ∧
      ∀ after, (mergeFragment (serviceFragment before parent index clause)
          .serviceCriteria).Returns (before.inside (serviceFragment before parent index clause))
          () after →
        after = (before.inside (serviceFragment before parent index clause)).modifyProgram
          fun program => { program with
            services := program.services.modify index fun record =>
              { record with clauses := record.clauses ++ [Clause.ofDeclaration
                (serviceFragment before parent index clause).id (some .serviceCriteria)
                numbered] } } := by
  obtain ⟨numbered, single, same, placed⟩ := exists_numbered_clause
    (before.program.services.get index).declaration.span clause
  refine ⟨numbered, same, congrArg (UnitBody.clauses index) single, placed,
    fun after returns => ?_⟩
  rw [mergeFragment_serviceFragment, single] at returns
  obtain ⟨inner, declared, rfl⟩ := returns.inFrame fun inner declared => by
    rw [returns_modifyProgram.mp declared]
    rfl
  rw [returns_modifyProgram.mp declared]
  rfl

/-- Expanding one service. -/
theorem returns_inferServiceCriteriaOf {index : ServiceIndex}
    (holds : before.program.services.Holds index)
    (returns : (inferServiceCriteriaOf index).Returns before () after) :
    before.InfersClauses after := by
  simp only [inferServiceCriteriaOf, returns_get_bind] at returns
  split at returns
  · obtain ⟨-, rfl⟩ := returns_pure.mp returns
    exact .refl _
  · next clause missing =>
    obtain ⟨⟨versionEnd, made⟩, absent⟩ := Service.missingClause?_eq_some missing
    obtain ⟨parent, inner, found, merged, rfl⟩ := returns_expandDeclaration
      (fun parent inner merged => by
        obtain ⟨numbered, -, -, -, effect⟩ := returns_mergeClause before parent index clause
        rw [effect inner merged]
        exact ⟨rfl, rfl⟩) returns
    obtain ⟨numbered, same, body, placed, effect⟩ :=
      returns_mergeClause before parent index clause
    rw [effect inner merged]
    let added : Clause := .ofDeclaration (serviceFragment before parent index clause).id
      (some .serviceCriteria) numbered
    have keeps := keeps_addClause before.program index added rfl
    have parentId : parent.id = (before.program.services.get index).context.unit :=
      (Workspace.unit?_eq_some found).2
    have fragmentMade : before.program.ServiceFragment
        (serviceFragment before parent index clause) := by
      refine ⟨index, numbered, body, holds, ?_, placed⟩
      rw [← parentId]
      rfl
    refine ⟨rfl, ⟨[serviceFragment before parent index clause], rfl, ?_⟩, ?_, ?_, rfl, ?_, keeps,
      ?_⟩
    · intro fragment member
      rw [List.mem_singleton.mp member]
      exact fragmentMade.of_keeps keeps
    · exact fun distinct => Workspace.nodup_ids_concat distinct rfl
    · intro service held other member
      change other ∈ ((before.program.services.modify index fun record =>
        { record with clauses := record.clauses ++ [added] }).get service).clauses at member
      by_cases equal : service = index
      · subst equal
        rw [Arena.get_modify_self held, List.mem_append, List.mem_singleton] at member
        rcases member with written | rfl
        · exact .inl written
        · exact .inr ⟨_, List.mem_append_right _ (List.mem_singleton_self _), rfl, body⟩
      · rw [Arena.get_modify_of_ne equal] at member
        exact .inl member
    · exact Arena.size_modify ..
    · intro coherent
      rw [Service.stripped_versionClause made] at same
      have inferred : Program.IsVersionClause
          (before.program.services.get index).declaration.verb added :=
        ⟨rfl, versionEnd, by rw [made, ← same]; rfl⟩
      apply coherent.addClause inferred rfl
      rw [← absent, ← same]
      rfl

/-- Expanding services one after the other. -/
theorem returns_inferServiceCriteria (returns : inferServiceCriteria.Returns before () after) :
    before.InfersClauses after := by
  simp only [inferServiceCriteria, returns_get_bind] at returns
  apply returns.forM_induction fun _ current => before.InfersClauses current
  · exact .refl before
  · intro _ index _ current following split infers step
    have member : index ∈ before.program.services.indices := by simp [split]
    have holds := Arena.mem_indices.mp member
    exact infers.trans (returns_inferServiceCriteriaOf
      (by simpa [Arena.Holds, infers.size] using holds) step)

theorem succeeds_inferServiceCriteriaOf {index : ServiceIndex} (expandable : before.Expandable)
    (holds : before.program.services.Holds index) :
    (inferServiceCriteriaOf index).Succeeds before := by
  simp only [inferServiceCriteriaOf, succeeds_get_bind]
  split
  · exact succeeds_pure ..
  · next clause missing =>
    obtain ⟨parent, found⟩ := Workspace.exists_unit (expandable.services index holds)
    apply succeeds_expandDeclaration found expandable.shallow
    · change (mergeFragment (serviceFragment before parent index clause) _).Succeeds _
      rw [mergeFragment_serviceFragment]
      apply succeeds_inFrame
      · simp [Workspace.inside, Frame.kind]
      · exact ⟨(), _, returns_modifyProgram.mpr rfl⟩
      · intro _ inner declared
        rw [returns_modifyProgram.mp declared]
        rfl
    · intro inner merged
      obtain ⟨numbered, -, -, -, effect⟩ := returns_mergeClause before parent index clause
      rw [effect inner merged]
      exact ⟨rfl, rfl⟩

/-- Clauses can be inferred when all units are there. -/
theorem succeeds_inferServiceCriteria (expandable : before.Expandable) :
    inferServiceCriteria.Succeeds before := by
  simp only [inferServiceCriteria, succeeds_get_bind]
  apply succeeds_forM fun _ current => current.Expandable ∧
    current.program.services.size = before.program.services.size
  · exact ⟨expandable, rfl⟩
  · rintro visited index rest current split ⟨stillExpandable, size⟩
    have member : index ∈ before.program.services.indices := by simp [split]
    have holds := Arena.mem_indices.mp member
    exact succeeds_inferServiceCriteriaOf stillExpandable (by simpa [Arena.Holds, size] using holds)
  · rintro _ index _ current following split ⟨stillExpandable, size⟩ step
    have member : index ∈ before.program.services.indices := by simp [split]
    have holds := Arena.mem_indices.mp member
    have infers := returns_inferServiceCriteriaOf (by simpa [Arena.Holds, size] using holds) step
    exact ⟨infers.expandable stillExpandable, infers.size.trans size⟩

end Phase
end DomainLang
