import DomainLang.Proofs.Model.DeclarationOrder
import Mathlib.Data.List.GetD
import Mathlib.Data.List.NodupEquivFin
import Mathlib.Data.List.Sigma

/-!
# Repetitions are reported exactly

Names of declarations, of members of a classifier, of parameters of a url and of siblings in a
projection must not recur in their group, and neither must the kinds of clauses of a service. Every
occurrence that recurs is reported once and nothing else is. Groups are taken from the records that
name their owner, so no list that a record keeps matters to what is reported.
-/

namespace DomainLang

open Resolved

section Groups

variable {α κ γ : Type} [DecidableEq κ]

/-- The key of the item at a position stands at another position too. -/
def KeyRecurs (key : α → κ) (items : List α) (position : Nat) : Prop :=
  ∃ item, items[position]? = some item ∧
    ∃ other twin, other ≠ position ∧ items[other]? = some twin ∧ key twin = key item

/-- The diagnostics belong one by one to the items whose key recurs in their group, of all groups
there are. -/
def ReportsRecurring (items : γ → List α) (key : α → κ) (finding : γ → α → Finding)
    (diagnostics : List Diagnostic) : Prop :=
  ∃ occurrences : List (γ × Nat), occurrences.Nodup ∧
    (∀ group position, (group, position) ∈ occurrences ↔ KeyRecurs key (items group) position) ∧
    List.Forall₂ (fun occurrence diagnostic => ∃ item,
      (items occurrence.1)[occurrence.2]? = some item ∧
        diagnostic = (finding occurrence.1 item).diagnostic) occurrences diagnostics

/-- An item is repeated when its key stands at another position. -/
theorem one_lt_countP_iff {key : α → κ} {items : List α} {position : Nat} {item : α}
    (found : items[position]? = some item) :
    1 < items.countP (fun other => key other = key item) ↔ KeyRecurs key items position := by
  obtain ⟨inside, rfl⟩ := List.getElem?_eq_some_iff.mp found
  rw [countP_key, ← Nat.succ_le_iff, ← List.duplicate_iff_two_le_count,
    List.duplicate_iff_exists_distinct_get]
  constructor
  · rintro ⟨first, second, less, atFirst, atSecond⟩
    have recurs (other : Fin (items.map key).length) (different : other.1 ≠ position)
        (same : key items[position] = (items.map key).get other) :
        KeyRecurs key items position := by
      have within : other.1 < items.length := by simpa using other.2
      exact ⟨_, found, other, items[other.1], different, List.getElem?_eq_getElem within,
        by simpa using same.symm⟩
    by_cases here : first.1 = position
    · exact recurs second (fun also => absurd less (by omega)) atSecond
    · exact recurs first here atFirst
  · rintro ⟨item, isItem, other, twin, different, isTwin, same⟩
    cases found.symm.trans isItem
    obtain ⟨within, rfl⟩ := List.getElem?_eq_some_iff.mp isTwin
    rcases Nat.lt_or_gt_of_ne different with less | less
    · exact ⟨⟨other, by simpa⟩, ⟨position, by simpa⟩, less, by simp [same], by simp⟩
    · exact ⟨⟨position, by simpa⟩, ⟨other, by simpa⟩, less, by simp, by simp [same]⟩

/-- The items that are repeated, with their positions. -/
def recurring (key : α → κ) (items : List α) : List (α × Nat) :=
  items.zipIdx.filter fun entry => 1 < items.countP fun other => key other = key entry.1

theorem mem_recurring {key : α → κ} {items : List α} {entry : α × Nat} :
    entry ∈ recurring key items ↔
      items[entry.2]? = some entry.1 ∧ KeyRecurs key items entry.2 := by
  rw [recurring, List.mem_filter, List.mem_zipIdx_iff_getElem?, decide_eq_true_iff]
  exact and_congr_right fun found => one_lt_countP_iff found

theorem map_fst_recurring (key : α → κ) (items : List α) :
    (recurring key items).map Prod.fst = repeated key items := by
  conv_rhs => rw [repeated, ← List.zipIdx_map_fst 0 items, List.filter_map]
  simp [recurring, Function.comp_def]

theorem nodup_positions (key : α → κ) (items : List α) :
    ((recurring key items).map Prod.snd).Nodup :=
  (List.nodup_zipIdx_map_snd _).sublist (List.filter_sublist.map _)

/-- Repetitions, group by group, are reported one by one. -/
theorem reportsRecurring_flatMap {items : γ → List α} {key : α → κ} {finding : γ → α → Finding}
    {groups : List γ} {found : γ → List Finding} (distinct : groups.Nodup)
    (all : ∀ group, group ∉ groups → items group = [])
    (each : ∀ group ∈ groups, found group = (repeated key (items group)).map (finding group)) :
    ReportsRecurring items key finding ((groups.flatMap found).map Finding.diagnostic) := by
  refine ⟨groups.flatMap fun group =>
    ((recurring key (items group)).map Prod.snd).map (Prod.mk group),
    nodup_flatMap_mk distinct fun group => nodup_positions key (items group), ?_, ?_⟩
  · intro group position
    simp only [List.mem_flatMap, List.mem_map, Prod.mk.injEq]
    constructor
    · rintro ⟨group, -, _, ⟨entry, member, rfl⟩, rfl, rfl⟩
      exact (mem_recurring.mp member).2
    · intro recurs
      obtain ⟨item, found, -⟩ := id recurs
      have among : group ∈ groups := by
        by_contra absent
        simp [all group absent] at found
      exact ⟨group, among, position, ⟨(item, position), mem_recurring.mpr ⟨found, recurs⟩, rfl⟩,
        rfl, rfl⟩
  · rw [List.flatMap_congr each, List.map_flatMap]
    clear distinct all each
    induction groups with
    | nil => exact .nil
    | cons group rest ih =>
      refine List.rel_append ?_ ih
      simp only [← map_fst_recurring, List.forall₂_map_left_iff, List.forall₂_map_right_iff,
        List.forall₂_same]
      exact fun entry member => ⟨entry.1, (mem_recurring.mp member).1, rfl⟩

end Groups

/-- What kind of declaration it is, in words; a user class is a class. -/
def Syntax.Declaration.label : Declaration → String
  | .klass _ => "class"
  | declaration => declaration.kindName

/-- A record is called what its declaration is called. -/
theorem Program.Describes.kindName_eq {program : Program} {header : Header}
    {element : Syntax.Declaration} {index : TopLevelIndex}
    (describes : program.Describes header element index) : index.kindName = element.label := by
  cases describes <;> rfl

namespace Program

/-- The names of the members of a classifier with their units: its properties, its end signatures
and the ends that it owns. -/
def membersOf (program : Program) (classifier : ClassifierIndex) :
    List (UnitId × Syntax.Identifier) :=
  (program.properties.records.filter (·.owner = classifier)).map
      (fun property => (property.context.unit, property.name)) ++
    (program.endSignatures.records.filter (·.owner = classifier)).map
      (fun signature => (signature.context.unit, signature.name)) ++
    (program.associationEnds.records.filter (·.owner.map .klass = some classifier)).map
      fun associationEnd => (associationEnd.context.unit, associationEnd.name)

def parametersOf (program : Program) (url : UrlIndex) : List Parameter :=
  program.parameters.records.filter (·.url = url)

end Program

namespace Resolved.ProjectionElement

mutual

/-- Siblings at all levels of a projection, each with the path of what they stand under. -/
def levels (owner : String) (children : List ProjectionElement) :
    List (String × List ProjectionElement) :=
  (owner, children) :: levelsUnder owner children

/-- The levels under the references among siblings. -/
def levelsUnder (owner : String) : List ProjectionElement → List (String × List ProjectionElement)
  | [] => []
  | .reference name _ children :: rest =>
    levels (owner ++ "." ++ name.name) children ++ levelsUnder owner rest
  | _ :: rest => levelsUnder owner rest

end

end Resolved.ProjectionElement

def Resolved.Projection.levels (projection : Projection) : List (String × List ProjectionElement) :=
  ProjectionElement.levels projection.header.name.name projection.children

/-- A level, given by the projection and its number there. -/
def Program.level (program : Program) (level : ProjectionIndex × Nat) :
    String × List ProjectionElement :=
  (program.projections.get level.1).levels.getD level.2 default

namespace Workspace

def diagnosticsOf (workspace : Workspace) (kind : ProblemKind) : List Diagnostic :=
  workspace.report.diagnostics.filter (·.kind = kind)

/-- Names of declarations that recur are reported, in whichever file and of whichever kind, and
exactly these are ambiguous. -/
structure ReportsNames (workspace : Workspace) (units : List CompilationUnit) : Prop where
  reported : ReportsRecurring (fun _ : Unit => declarationsOf units) (·.2.name.name)
    (fun _ written => ⟨.duplicateTopLevel written.2.name.name written.2.label, written.1.id,
      written.2.name.span⟩) (workspace.diagnosticsOf .duplicateTopLevel)
  ambiguous : ∀ name, workspace.registry.resolve name = .ambiguous ↔
    ∃ position written, (declarationsOf units)[position]? = some written ∧
      written.2.name.name = name ∧ KeyRecurs (·.2.name.name) (declarationsOf units) position

/-- What recurs in the groups within declarations is reported. -/
structure ReportsGroups (workspace : Workspace) : Prop where
  members : ReportsRecurring workspace.program.membersOf (·.2.name)
    (fun classifier member => ⟨.duplicateMember (workspace.program.classifier classifier).name
      member.2.name, member.1, member.2.span⟩) (workspace.diagnosticsOf .duplicateMember)
  parameters : ReportsRecurring workspace.program.parametersOf (·.name.name)
    (fun url parameter => ⟨.duplicateParameter parameter.name.name
      (workspace.program.urls.get url).declaration.displayPath, parameter.context.unit,
      parameter.name.span⟩) (workspace.diagnosticsOf .duplicateParameter)
  clauses : ReportsRecurring (fun service => (workspace.program.services.get service).clauses)
    (·.kind) (fun _ clause => ⟨.duplicateClause clause.kind, clause.unit,
      clause.declaration.keywordSpan⟩) (workspace.diagnosticsOf .duplicateCriteria)
  projections : ReportsRecurring (fun level => (workspace.program.level level).2) (·.name.name)
    (fun level child => ⟨.duplicateProjectionMember
      ((workspace.program.level level).1 ++ "." ++ child.name.name),
      (workspace.program.projections.get level.1).header.unit, child.name.span⟩)
    (workspace.diagnosticsOf .duplicateProjectionMember)

variable {workspace : Workspace}

theorem diagnosticsOf_reportAll (blank : workspace.report = {}) (kind : ProblemKind) :
    workspace.reportAll.diagnosticsOf kind =
      (workspace.findings.filter (·.problem.kind = kind)).map Finding.diagnostic := by
  rw [diagnosticsOf, diagnostics_reportAll blank, List.filter_map]
  rfl

section Kinds

open Uniqueness

theorem filter_findings_members (workspace : Workspace) :
    workspace.findings.filter (·.problem.kind = .duplicateMember) =
      workspace.program.classifiers.flatMap (members workspace.program) := by
  rw [filter_findings]
  change (List.flatMap _ _).filter _ ++ [] = _
  rw [List.append_nil, List.filter_flatMap]
  refine List.flatMap_congr fun index _ => ?_
  cases index <;> simp [classifier, members, modifiers, interfaces, versionMembers,
    markedProperties, List.filter_flatMap, List.filter_map, Function.comp_def, Problem.kind,
    apply_ite (List.filter _)]

/-- The urls of all service groups. -/
def urlsListed (program : Program) : List UrlIndex :=
  program.serviceGroups.indices.flatMap fun group => (program.serviceGroups.get group).urls

/-- What is reported about the urls of service groups, apart from the urls themselves. -/
theorem filter_findings_requests (workspace : Workspace) :
    workspace.findings.filter (·.problem.kind = .duplicateParameter) =
      (urlsListed workspace.program).flatMap (fun url =>
        parameters workspace.program (workspace.program.urls.get url)) ∧
    workspace.findings.filter (·.problem.kind = .duplicateCriteria) =
      ((urlsListed workspace.program).flatMap fun url =>
        (workspace.program.urls.get url).services).flatMap fun service =>
          clauses (workspace.program.services.get service) := by
  have quiet (services : List ServiceIndex) :
      services.flatMap (fun _ => ([] : List Finding)) = [] := by simp
  constructor <;> rw [filter_findings] <;> change (List.flatMap _ _).filter _ ++ [] = _ <;>
    simp [group, parameters, clauses, List.filter_flatMap, List.filter_map, Function.comp_def,
      Problem.kind, urlsListed, Arena.records_eq_map_get, List.flatMap_map, List.flatMap_assoc,
      quiet]

end Kinds

/-- Siblings of a level that share a name. -/
def siblings (unit : UnitId) (level : String × List ProjectionElement) : List Finding :=
  (repeated (·.name.name) level.2).map fun child =>
    ⟨.duplicateProjectionMember (level.1 ++ "." ++ child.name.name), unit, child.name.span⟩

mutual

theorem elements_eq (unit : UnitId) (owner : String) (children : List ProjectionElement) :
    Uniqueness.elements unit owner children =
      (ProjectionElement.levels owner children).flatMap (siblings unit) := by
  rw [Uniqueness.elements, ProjectionElement.levels, List.flatMap_cons,
    nestedElements_eq unit owner children, siblings]
termination_by (sizeOf children, 1)

theorem nestedElements_eq (unit : UnitId) (owner : String) :
    ∀ children : List ProjectionElement, Uniqueness.nestedElements unit owner children =
      (ProjectionElement.levelsUnder owner children).flatMap (siblings unit)
  | [] => by simp [Uniqueness.nestedElements, ProjectionElement.levelsUnder]
  | .reference name found children :: rest => by
    rw [Uniqueness.nestedElements, ProjectionElement.levelsUnder, List.flatMap_append,
      elements_eq unit _ children, nestedElements_eq unit owner rest]
  | .property .. :: rest => by
    rw [Uniqueness.nestedElements, ProjectionElement.levelsUnder, nestedElements_eq unit owner rest]
      <;> simp
  | .projection .. :: rest => by
    rw [Uniqueness.nestedElements, ProjectionElement.levelsUnder, nestedElements_eq unit owner rest]
      <;> simp
termination_by children => (sizeOf children, 0)

end

theorem filter_findings_projections (workspace : Workspace) :
    workspace.findings.filter (·.problem.kind = .duplicateProjectionMember) =
      (workspace.program.projections.indices.flatMap fun index =>
        (List.range (workspace.program.projections.get index).levels.length).map
          (Prod.mk index)).flatMap fun level =>
        siblings (workspace.program.projections.get level.1).header.unit
          (workspace.program.level level) := by
  rw [filter_findings]
  change (List.flatMap _ _).filter _ ++ [] = _
  rw [List.append_nil, OfKinds.filter_eq_self (.flatMap fun _ =>
    (Uniqueness.reports_elements _ _ _).ofKinds), Arena.records_eq_map_get, List.flatMap_map,
    List.flatMap_assoc]
  refine List.flatMap_congr fun index _ => ?_
  rw [elements_eq, List.flatMap_map]
  exact (flatMap_range_getD _ _).symm

section Linked

variable {units fragments : List CompilationUnit} {recorded : List RecordedDeclaration}
  (linked : workspace.Linked units recorded fragments)

include linked

/-- An end belongs to a class that is there. -/
theorem Linked.holds_endOwner {associationEnd : AssociationEndIndex} {owner : ClassIndex}
    (holds : workspace.program.associationEnds.Holds associationEnd)
    (owned : (workspace.program.associationEnds.get associationEnd).owner = some owner) :
    workspace.program.classes.Holds owner := by
  have opposite := linked.coherent.ends.holds_opposite holds
  rw [linked.declarations.endOwners _ holds, Resolution.value?_eq_some,
    linked.declarations.endTargets _ opposite] at owned
  exact (linked.names.classes.of_find owned).1

/-- The members that a classifier lists are all that name it. -/
theorem Linked.memberNames_eq {classifier : ClassifierIndex}
    (holds : workspace.program.HoldsClassifier classifier) :
    Uniqueness.memberNames workspace.program classifier =
      workspace.program.membersOf classifier := by
  simp only [Uniqueness.memberNames, Program.membersOf, ← Arena.map_get_select, List.map_map]
  rw [linked.coherent.properties.listed_eq _ holds id,
    linked.coherent.endSignatures.listed_eq _ holds id]
  congr 1
  cases classifier with
  | interface index => simp [Arena.select]
  | klass index =>
    change (workspace.program.classes.get index).associationEnds.map _ = _
    rw [linked.declarations.classEnds index holds]
    simp [Function.comp_def]

/-- Only classifiers that are there have members. -/
theorem Linked.membersOf_eq_nil {classifier : ClassifierIndex}
    (absent : ¬ workspace.program.HoldsClassifier classifier) :
    workspace.program.membersOf classifier = [] := by
  have ends : workspace.program.associationEnds.select
      (fun associationEnd => associationEnd.owner.map .klass = some classifier) = [] := by
    apply Arena.select_eq_nil
    intro associationEnd holds
    rw [decide_eq_false_iff_not, Option.map_eq_some_iff]
    rintro ⟨owner, owned, rfl⟩
    exact absent (linked.holds_endOwner holds owned)
  simp only [Program.membersOf, ← Arena.map_get_select, ends,
    linked.coherent.properties.select_eq_nil absent,
    linked.coherent.endSignatures.select_eq_nil absent, List.map_nil, List.append_nil]

theorem Linked.enumerates_urlsListed :
    workspace.program.urls.Enumerates (urlsListed workspace.program) :=
  linked.coherent.urls.enumerates (by simp) (Arena.nodup_indices _) fun _ => Arena.mem_indices

theorem Linked.parameters_eq {url : UrlIndex} (holds : workspace.program.urls.Holds url) :
    (workspace.program.urls.get url).parameters.map workspace.program.parameters.get =
      workspace.program.parametersOf url := by
  rw [linked.coherent.parameters.listed_eq url holds (by simp), Arena.map_get_select]
  rfl

theorem Linked.parametersOf_eq_nil {url : UrlIndex} (absent : ¬ workspace.program.urls.Holds url) :
    workspace.program.parametersOf url = [] := by
  rw [Program.parametersOf, ← Arena.map_get_select,
    linked.coherent.parameters.select_eq_nil absent, List.map_nil]

theorem Linked.reportsGroups : workspace.reportAll.ReportsGroups where
  members := by
    rw [diagnosticsOf_reportAll linked.report, filter_findings_members]
    refine reportsRecurring_flatMap (Program.nodup_classifiers _) (fun classifier absent => ?_)
      fun classifier member => ?_
    · exact linked.membersOf_eq_nil (mt Program.mem_classifiers.mpr absent)
    · rw [Uniqueness.members, linked.memberNames_eq (Program.mem_classifiers.mp member)]
      rfl
  parameters := by
    have enumerates := linked.enumerates_urlsListed
    rw [diagnosticsOf_reportAll linked.report, workspace.filter_findings_requests.1]
    refine reportsRecurring_flatMap enumerates.nodup (fun url absent => ?_) fun url member => ?_
    · exact linked.parametersOf_eq_nil (mt enumerates.mem_iff.mpr absent)
    · rw [Uniqueness.parameters, linked.parameters_eq (enumerates.mem_iff.mp member)]
      rfl
  clauses := by
    have enumerates := linked.coherent.services.enumerates (by simp)
      linked.enumerates_urlsListed.nodup fun _ => linked.enumerates_urlsListed.mem_iff
    rw [diagnosticsOf_reportAll linked.report, workspace.filter_findings_requests.2]
    refine reportsRecurring_flatMap enumerates.nodup (fun service absent => ?_) fun _ _ => rfl
    rw [program_reportAll, Arena.get_of_not_holds (mt enumerates.mem_iff.mpr absent)]
    rfl
  projections := by
    rw [diagnosticsOf_reportAll linked.report, filter_findings_projections]
    refine reportsRecurring_flatMap
      (nodup_flatMap_mk (Arena.nodup_indices _) fun _ => List.nodup_range) ?_ fun _ _ => rfl
    rintro ⟨index, number⟩ absent
    simp only [List.mem_flatMap, Arena.mem_indices, List.mem_map, List.mem_range, Prod.mk.injEq]
      at absent
    rw [Program.level, program_reportAll]
    by_cases holds : workspace.program.projections.Holds index
    · have beyond : (workspace.program.projections.get index).levels.length ≤ number :=
        Nat.not_lt.mp fun inside => absent ⟨index, holds, number, inside, rfl, rfl⟩
      rw [List.getD_eq_default _ _ beyond]
      rfl
    · have bare : (default : Projection).levels = [default] := by
        rw [Projection.levels, ProjectionElement.levels, show (default : Projection).children = []
          from rfl, ProjectionElement.levelsUnder]
        rfl
      rw [Arena.get_of_not_holds holds, bare]
      cases number <;> rfl

/-- Lookups of a name are ambiguous when declarations share it. -/
theorem Linked.resolve_eq_ambiguous_iff (name : String) :
    workspace.registry.resolve name = .ambiguous ↔
      1 < (declarationsOf units).countP fun written => written.2.name.name = name := by
  rw [linked.names.topLevel, Resolution.ofMatches_eq_ambiguous, Program.named,
    ← List.countP_eq_length_filter, ← linked.records.all.countP_eq, ← linked.written,
    List.countP_map, List.countP_map]
  have same : recorded.countP ((fun index => workspace.program.nameOf index = name) ∘ Prod.snd) =
      recorded.countP ((fun written => written.2.name.name = name) ∘ Prod.fst) := by
    refine List.countP_congr fun entry member => ?_
    obtain ⟨ordinal, describes⟩ := linked.records.describes_mem member
    simp [Program.nameOf, describes.header_eq, Header.ofElement]
  rw [same]
  rfl

theorem Linked.topLevelNames_eq :
    Uniqueness.topLevelNames workspace =
      (repeated (·.2.name.name) (declarationsOf units)).map fun written =>
        ⟨.duplicateTopLevel written.2.name.name written.2.label, written.1.id,
          written.2.name.span⟩ := by
  rw [Uniqueness.topLevelNames, repeated, linked.records.topLevel_eq, ← linked.written,
    List.filter_map, List.filter_map, List.map_map, List.map_map, linked.written]
  have kept : recorded.filter ((fun index => (workspace.registry.resolve
      (workspace.program.header index).name.name).isAmbiguous) ∘ Prod.snd) =
      recorded.filter ((fun written => 1 < (declarationsOf units).countP fun other =>
        other.2.name.name = written.2.name.name) ∘ Prod.fst) := by
    refine List.filter_congr fun entry member => ?_
    obtain ⟨ordinal, describes⟩ := linked.records.describes_mem member
    rw [Function.comp_apply, describes.header_eq, Bool.eq_iff_iff, Resolution.isAmbiguous_iff,
      linked.resolve_eq_ambiguous_iff, Function.comp_apply, decide_eq_true_iff]
    rfl
  rw [kept]
  refine List.map_congr_left fun entry member => ?_
  obtain ⟨ordinal, describes⟩ := linked.records.describes_mem (List.mem_filter.mp member).1
  simp only [Function.comp_apply, describes.header_eq, describes.kindName_eq]
  rfl

theorem Linked.reportsNames : workspace.reportAll.ReportsNames units where
  reported := by
    have filtered : workspace.findings.filter (·.problem.kind = .duplicateTopLevel) =
        Uniqueness.topLevelNames workspace := by
      rw [filter_findings]
      change (Uniqueness.topLevelNames workspace).filter _ ++ [] = _
      rw [List.append_nil]
      exact OfKinds.filter_eq_self (.map fun _ => rfl)
    rw [diagnosticsOf_reportAll linked.report, filtered,
      ← List.flatMap_singleton (fun _ => Uniqueness.topLevelNames workspace) ()]
    exact reportsRecurring_flatMap (List.nodup_singleton ())
      (fun _ absent => absurd (by simp) absent) fun _ _ => linked.topLevelNames_eq
  ambiguous name := by
    rw [registry_reportAll, linked.resolve_eq_ambiguous_iff]
    constructor
    · intro shared
      obtain ⟨written, member, named⟩ := List.countP_pos_iff.mp (Nat.zero_lt_of_lt shared)
      obtain ⟨position, found⟩ := List.mem_iff_getElem?.mp member
      obtain rfl := of_decide_eq_true named
      exact ⟨position, written, found, rfl, (one_lt_countP_iff found).mp shared⟩
    · rintro ⟨position, written, found, rfl, recurs⟩
      exact (one_lt_countP_iff found).mpr recurs

end Linked

end Workspace

/-- After an analysis the declarations whose names recur are reported, each once, and so is what
recurs among members of a classifier, parameters of a url, clauses of a service and siblings in a
projection; nothing else is reported as a repetition of these kinds. -/
theorem analyze_reports_repetitions (options : Options) (units : List CompilationUnit)
    (after : Workspace) (returns : Phase.analyze.perform { options, units } = (.ok (), after)) :
    after.ReportsNames units ∧ after.ReportsGroups := by
  obtain ⟨analysed, recorded, fragments, isAnalysed, rfl⟩ := Phase.returns_analyze returns
  exact ⟨isAnalysed.toLinked.reportsNames, isAnalysed.toLinked.reportsGroups⟩

namespace Sample

open Syntax

/-- A class with a repeated member and, in another file, a projection that has the name of the
class and shows a member twice. -/
def crates : List CompilationUnit := [
  .ofTree ⟨0⟩ "classes" {
    package := ⟨.bare, "com.example"⟩
    elements := [klass "Crate" none [] [number "id" false [.key], number "size" false [],
      number "size" true []]] },
  .ofTree ⟨1⟩ "views" {
    package := ⟨.bare, "com.example"⟩
    elements := [.projection ⟨.bare, .bare "Crate", .bare "Crate",
      [.property .bare (.bare "size") "Size", .property .bare (.bare "id") "Id",
        .property .bare (.bare "size") "Size"]⟩] }]

end Sample

/-- Both declarations, both members and both elements are reported. -/
theorem analyze_reports_repetitions_crates : ∃ after,
    Phase.analyze.perform { options := {}, units := Sample.crates } = (.ok (), after) ∧
    after.report.diagnostics.map (·.kind) =
      [.duplicateTopLevel, .duplicateTopLevel, .duplicateMember, .duplicateMember,
        .duplicateProjectionMember, .duplicateProjectionMember] ∧
    after.ReportsNames Sample.crates ∧ after.ReportsGroups := by
  have seen : (Phase.analyze.perform { options := {}, units := Sample.crates }).map
      Except.toOption (fun after => after.report.diagnostics.map (·.kind)) =
      (some (), [.duplicateTopLevel, .duplicateTopLevel, .duplicateMember, .duplicateMember,
        .duplicateProjectionMember, .duplicateProjectionMember]) := by cbv
  obtain ⟨after, returns, seen⟩ := Phase.exists_returns_of_map_eq seen
  exact ⟨after, returns, seen, analyze_reports_repetitions _ _ _ returns⟩

end DomainLang
