import DomainLang.Proofs.Compilation
import DomainLang.Proofs.Places.Findings

/-!
# Diagnostics point into their files

Every diagnostic names a unit, which is there exactly once, and its span is one of the spans of
that unit. The spans of a source file lie in the file at the position of its tree, and all
spans of a fragment are that of the declaration that the fragment expands. So the file that is
shown for a diagnostic is the file of the unit that it names.
-/

namespace DomainLang

open Resolved

/-- A span lies in the file at a position, and the unit is the one of that file or a fragment
that expands one of its declarations. -/
structure CompilationUnit.LiesIn (unit : CompilationUnit)
    (trees : List (String × Syntax.SourceTree)) (span : Span) (position : Nat)
    (entry : String × Syntax.SourceTree) : Prop where
  given : trees[position]? = some entry
  fileId : span.fileId.toNat = position
  origin : unit = SourceSet.unitAt position entry ∨ ∃ expansion,
    unit.expansion = some expansion ∧ expansion.parent = (SourceSet.unitAt position entry).id

namespace SourceSet

variable {trees : List (String × Syntax.SourceTree)}

theorem mem_units_ofTrees {unit : CompilationUnit} :
    unit ∈ (ofTrees trees).units ↔
      ∃ position entry, trees[position]? = some entry ∧ unit = unitAt position entry := by
  rw [units_ofTrees, List.mem_mapIdx]
  constructor
  · rintro ⟨position, inside, rfl⟩
    exact ⟨position, _, List.getElem?_eq_getElem inside, rfl⟩
  · rintro ⟨position, entry, given, rfl⟩
    obtain ⟨inside, rfl⟩ := List.getElem?_eq_some_iff.mp given
    exact ⟨position, inside, rfl⟩

/-- The spans of a source file lie at its position, as long as there are positions. -/
theorem fileId_of_mem_unitAt {position : Nat} {entry : String × Syntax.SourceTree}
    (given : trees[position]? = some entry) (few : trees.length ≤ 65536) {span : Span}
    (member : span ∈ (unitAt position entry).spans) : span.fileId.toNat = position := by
  have inside := (List.getElem?_eq_some_iff.mp given).1
  change span ∈ ((entry.2.numbered (.retarget (UInt16.ofNat (min position 65535)))).numbered
    .keep).spans at member
  rw [Syntax.SourceTree.spans_numbered_keep] at member
  rw [Syntax.SourceTree.fileId_of_mem_spans member, UInt16.toNat_ofNat']
  omega

/-- A span that was given lies in the file of its unit. -/
theorem exists_of_writtenIn (few : trees.length ≤ 65536) {id : UnitId} {span : Span}
    (written : WrittenIn (ofTrees trees).units id [span]) :
    ∃ position entry, trees[position]? = some entry ∧ (unitAt position entry).id = id ∧
      span.fileId.toNat = position := by
  obtain ⟨unit, member, same, inside⟩ := written
  obtain ⟨position, entry, given, rfl⟩ := mem_units_ofTrees.mp member
  exact ⟨position, entry, given, same,
    fileId_of_mem_unitAt given few (inside (List.mem_singleton_self _))⟩

end SourceSet

namespace Workspace

variable {workspace : Workspace} {trees : List (String × Syntax.SourceTree)}
  {recorded : List RecordedDeclaration} {fragments : List CompilationUnit}

namespace Linked

variable (linked : workspace.Linked (SourceSet.ofTrees trees).units recorded fragments)

include linked

/-- A unit is found again by its id. -/
theorem unit_eq_of_id {first second : CompilationUnit} (member : first ∈ workspace.units)
    (other : second ∈ workspace.units) (same : first.id = second.id) : first = second :=
  List.inj_on_of_nodup_map (linked.distinctUnits (SourceSet.nodup_unitIds trees)) member other same

/-- The spans of a fragment with properties lie in the file of the classifier. -/
theorem liesIn_temporalFragment (few : trees.length ≤ 65536) {fragment : CompilationUnit}
    (made : workspace.program.TemporalFragment fragment) {span : Span}
    (inside : span ∈ fragment.spans) :
    ∃ position entry, fragment.LiesIn trees span position entry := by
  obtain ⟨owner, members, body, holds, expansion, -, placed⟩ := made
  rw [CompilationUnit.spans, body] at inside
  obtain ⟨index, held, header⟩ : ∃ index, workspace.program.HoldsTopLevel index ∧
      workspace.program.header index = (workspace.program.classifier owner).header := by
    cases owner with
    | interface index => exact ⟨.interface index, holds, rfl⟩
    | klass index => exact ⟨.klass index, holds, rfl⟩
  have written := (linked.written_header held).of_mem (List.mem_cons_self)
  have context : (workspace.program.header index).context.unit =
      (workspace.program.header index).unit := by
    obtain ⟨declaration, -, ordinal, made⟩ := linked.toSettled.exists_header held
    rw [made]
    rfl
  rw [header] at written context
  rw [← placed span inside] at written
  obtain ⟨position, entry, given, unit, file⟩ := SourceSet.exists_of_writtenIn few written
  exact ⟨position, entry, given, file, .inr ⟨_, expansion, context.trans unit.symm⟩⟩

/-- The spans of a fragment with a clause lie in the file of the service. -/
theorem liesIn_serviceFragment (few : trees.length ≤ 65536) {fragment : CompilationUnit}
    (made : workspace.program.ServiceFragment fragment) {span : Span}
    (inside : span ∈ fragment.spans) :
    ∃ position entry, fragment.LiesIn trees span position entry := by
  obtain ⟨service, clause, body, holds, expansion, placed⟩ := made
  rw [CompilationUnit.spans, body] at inside
  have written : WrittenIn (SourceSet.ofTrees trees).units
      (workspace.program.services.get service).context.unit [span] := by
    apply (linked.written_service holds).of_mem
    rw [placed span (by simpa using inside)]
    simp [Syntax.Service.spans, Syntax.Node.spans]
  obtain ⟨position, entry, given, unit, file⟩ := SourceSet.exists_of_writtenIn few written
  exact ⟨position, entry, given, file, .inr ⟨_, expansion, unit.symm⟩⟩

/-- The spans of a unit lie in the file that it is or that it expands. -/
theorem liesIn (few : trees.length ≤ 65536) {unit : CompilationUnit}
    (member : unit ∈ workspace.units) {span : Span} (inside : span ∈ unit.spans) :
    ∃ position entry, unit.LiesIn trees span position entry := by
  obtain ⟨more, allUnits, each⟩ := linked.units_eq
  rw [allUnits, List.mem_append, List.mem_append] at member
  rcases member with (isSource | isTemporal) | isService
  · obtain ⟨position, entry, given, rfl⟩ := SourceSet.mem_units_ofTrees.mp isSource
    exact ⟨position, entry, given, SourceSet.fileId_of_mem_unitAt given few inside, .inl rfl⟩
  · exact linked.liesIn_temporalFragment few (linked.expands unit isTemporal) inside
  · exact linked.liesIn_serviceFragment few (each unit isService) inside

end Linked
end Workspace

/-- A diagnostic stands in a unit of a compilation, at a span of the unit, and is shown in the
file of the unit. -/
structure Compilation.Shows (compilation : Compilation)
    (trees : List (String × Syntax.SourceTree)) (diagnostic : Diagnostic)
    (unit : CompilationUnit) (position : Nat) (entry : String × Syntax.SourceTree) : Prop
    extends unit.LiesIn trees diagnostic.span position entry where
  names : diagnostic.unit = some unit.id
  /-- The unit is there once. -/
  single : compilation.units.filter (·.id = unit.id) = [unit]
  inside : diagnostic.span ∈ unit.spans
  source : compilation.units[position]? = some (SourceSet.unitAt position entry)
  file : compilation.sources.file? diagnostic.span = some ⟨entry.1, ""⟩
  place : ∃ lineAndColumn, Diagnostic.place compilation.sources diagnostic.span =
    entry.1 ++ ":" ++ lineAndColumn

/-- Every diagnostic names a unit that is there exactly once, and points into the file that the
unit is or, for a fragment, that holds the declaration it expands. -/
theorem compile_diagnostics_located {trees : List (String × Syntax.SourceTree)}
    {configuration : Configuration} {compilation : Compilation} (few : trees.length ≤ 65536)
    (compiled : compile trees configuration = .ok compilation) :
    ∀ diagnostic ∈ compilation.diagnostics, ∃ unit position entry,
      compilation.Shows trees diagnostic unit position entry := by
  intro diagnostic member
  obtain ⟨workspace, recorded, fragments, reported⟩ := exists_reportedFrom_of_compile compiled
  have linked := reported.toLinked
  -- The diagnostic is that of a finding, which points into the unit it names.
  have among := reported.diagnostics.subset (List.mem_map_of_mem member)
  obtain ⟨finding, found, same⟩ := List.mem_map.mp among
  have span := congrArg Diagnostic.span same
  have named := congrArg Diagnostic.unit same
  change finding.span = diagnostic.span at span
  change some finding.unit = diagnostic.unit at named
  obtain ⟨unit, unitMember, unitId, inside⟩ :=
    reported.toAnalysed.locates_findings finding found
  have inside : diagnostic.span ∈ unit.spans := span ▸ inside (List.mem_singleton_self _)
  obtain ⟨position, entry, lies⟩ := linked.liesIn few unitMember inside
  have file : compilation.sources.file? diagnostic.span = some ⟨entry.1, ""⟩ := by
    rw [reported.sources, SourceMap.file?, SourceSet.files_ofTrees, lies.fileId, List.getElem?_map,
      lies.given]
    rfl
  refine ⟨unit, position, entry,
    { lies with names := ?_, single := ?_, inside, source := ?_, file, place := ?_ }⟩
  · rw [← named, unitId]
  · rw [reported.units]
    exact filter_eq_singleton (linked.distinctUnits (SourceSet.nodup_unitIds trees)) unitMember
  · obtain ⟨more, allUnits, -⟩ := linked.units_eq
    have inTrees := (List.getElem?_eq_some_iff.mp lies.given).1
    rw [reported.units, allUnits, List.append_assoc, List.getElem?_append_left,
      SourceSet.units_ofTrees, List.getElem?_mapIdx, lies.given]
    · rfl
    · rw [SourceSet.units_ofTrees, List.length_mapIdx]
      exact inTrees
  · rw [Diagnostic.place, file]
    obtain ⟨line, column⟩ := compilation.sources.lineColumn diagnostic.span
    exact ⟨toString line ++ ":" ++ toString column, by
      simp only [Option.map_some, Option.getD_some, String.append_assoc]⟩

namespace Sample

open Syntax in
/-- Documents with versions that have no number, so that the clause which is inferred for the
service in the second file names a property that is not there. -/
def unnumbered : List (String × SourceTree) := [
  ("documents", {
    package := ⟨.bare, "com.example"⟩
    elements := [
      klass "Doc" none [] [number "id" false [.key], number "next" true []],
      .association { association with
        target := { association.target with orderBy := none }
        relationship := .equal (.this "id") (.ofType "Doc.next") }] }),
  ("services", {
    package := ⟨.bare, "com.example"⟩
    elements := [
      .serviceGroup {
        toNode := .bare
        name := .bare "Service"
        target := .bare "Doc"
        urls := [{
          toNode := .bare
          path := [.constant (.bare "doc"), .parameter (parameter "version")]
          queryParameters := []
          services := [
            { service with clauses := [], projection := none, orderBy := none }] }] }] })]

end Sample

/-- A clause that is inferred wrongly is reported in the unit of its fragment, which comes after
those of both files, and in the second file. -/
theorem compile_diagnostics_located_unnumbered :
    ∃ compilation, compile Sample.unnumbered {} = .ok compilation ∧
      compilation.diagnostics.map (fun diagnostic => (diagnostic.unit, diagnostic.span.fileId)) =
        [(some ⟨2⟩, 1)] ∧
      ∀ diagnostic ∈ compilation.diagnostics, ∃ unit position entry,
        compilation.Shows Sample.unnumbered diagnostic unit position entry := by
  have units : (compile Sample.unnumbered {}).toOption.map (fun compilation =>
      compilation.diagnostics.map fun diagnostic => (diagnostic.unit, diagnostic.span.fileId)) =
      some [(some ⟨2⟩, 1)] := by cbv
  cases compiled : compile Sample.unnumbered {} with
  | error fault => simp [compiled, Except.toOption] at units
  | ok compilation =>
    simp only [compiled, Except.toOption, Option.map_some, Option.some.injEq] at units
    exact ⟨compilation, rfl, units, compile_diagnostics_located (by decide) compiled⟩

end DomainLang
