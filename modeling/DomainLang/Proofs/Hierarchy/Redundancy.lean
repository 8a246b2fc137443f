import DomainLang.Proofs.Model.Hierarchy

/-!
# Redundant interfaces are reported exactly

An entry of an implements clause is redundant when the classifier would implement the interface
without it. The rule looks for another parent that implements the interface. Without cycles
that comes to the same: no path from another parent goes back through the classifier, so none
uses the entry.

Reports are counted by entry and not by place, since a fragment of a program need not say where
it stands.
-/

namespace DomainLang

open Relation (ReflTransGen TransGen)
open Resolved

variable {found : Resolution InterfaceIndex}

section Paths

variable {α : Type} {edge fewer : α → α → Prop} {source target : α}

/-- Where nothing leads back to its source, an edge is not needed by any path that starts
behind another edge of the source. -/
theorem reaches_without_edge (acyclic : ∀ node, ¬ TransGen edge node node)
    (removed : ∀ first second,
      fewer first second ↔ edge first second ∧ ¬ (first = source ∧ second = target))
    {next last : α} (step : edge source next) (path : ReflTransGen edge next last) :
    ReflTransGen fewer next last := by
  induction path with
  | refl => exact .refl
  | @tail middle last onward final ih =>
    refine ih.tail ((removed _ _).mpr ⟨final, fun removedEdge => ?_⟩)
    exact acyclic source (TransGen.head'_iff.mpr ⟨next, step, removedEdge.1 ▸ onward⟩)

/-- The target of an edge is reached without it exactly when it is reached by way of another
successor of the source. -/
theorem reaches_without_edge_iff (acyclic : ∀ node, ¬ TransGen edge node node)
    (removed : ∀ first second,
      fewer first second ↔ edge first second ∧ ¬ (first = source ∧ second = target))
    (apart : target ≠ source) :
    ReflTransGen fewer source target ↔
      ∃ next, edge source next ∧ next ≠ target ∧ ReflTransGen edge next target := by
  constructor
  · intro path
    rcases ReflTransGen.cases_head path with same | ⟨next, step, onward⟩
    · exact absurd same.symm apart
    · obtain ⟨step, other⟩ := (removed _ _).mp step
      refine ⟨next, step, fun same => other ⟨rfl, same⟩, ?_⟩
      exact ReflTransGen.mono (fun _ _ kept => ((removed _ _).mp kept).1) _ _ onward
  · rintro ⟨next, step, other, onward⟩
    refine .head ((removed _ _).mpr ⟨step, fun same => other same.2⟩) ?_
    exact reaches_without_edge acyclic removed step onward

end Paths

/-- An entry of an implements clause, by its position. -/
structure ClauseEntry where
  classifier : ClassifierIndex
  position : Nat
  deriving DecidableEq

namespace Program

variable {program : Program} {entry : ClauseEntry} {interface : InterfaceIndex}
  {classifier : ClassifierIndex}

/-- The name that is written in an entry. -/
def writtenInterface? (program : Program) (entry : ClauseEntry) : Option Syntax.Identifier :=
  (program.classifier entry.classifier).declaredInterfaces[entry.position]?

/-- What the name in an entry was resolved to. -/
def foundInterface? (program : Program) (entry : ClauseEntry) :
    Option (Resolution InterfaceIndex) :=
  (program.classifier entry.classifier).interfaces[entry.position]?

/-- The program without an entry. -/
def dropInterface (program : Program) (entry : ClauseEntry) : Program :=
  program.modifyClassifier entry.classifier fun classifier =>
    { classifier with
      declaredInterfaces := classifier.declaredInterfaces.eraseIdx entry.position
      interfaces := classifier.interfaces.eraseIdx entry.position }

theorem holds_of_foundInterface? (entered : program.foundInterface? entry = some found) :
    program.HoldsClassifier entry.classifier := by
  by_contra absent
  rw [foundInterface?, classifier_of_not_holds absent] at entered
  cases entered

/-- What an entry was resolved to is what the lookup of the written name gives. -/
theorem LinkedDeclarations.exists_written {registry : Registry}
    (linked : program.LinkedDeclarations registry)
    (entered : program.foundInterface? entry = some found) :
    ∃ name, program.writtenInterface? entry = some name ∧
      registry.interfaces.find name.name = found := by
  have holds := holds_of_foundInterface? entered
  rw [foundInterface?, linked.interfaces_eq holds, Registry.findInterfaces, List.getElem?_map,
    Option.map_eq_some_iff] at entered
  exact entered

/-- The parents of a classifier are its superclass and its interfaces. -/
theorem mem_parents_iff {parent : ClassifierIndex} :
    parent ∈ program.parents classifier ↔
      (∃ klass superclass, classifier = .klass klass ∧ program.HasSuperclass klass superclass ∧
        parent = .klass superclass) ∨
      ∃ interface ∈ (program.classifier classifier).resolvedInterfaces,
        parent = .interface interface := by
  cases classifier with
  | interface index => simp [parents, parentInterfaces, Program.classifier, eq_comm]
  | klass index => simp [mem_parents_klass, Program.classifier]

/-- An entry has no part in superclasses. -/
theorem superclass?_dropInterface (klass : ClassIndex) :
    (program.dropInterface entry).superclass? klass = program.superclass? klass := by
  cases place : entry.classifier with
  | interface index => rw [dropInterface, place]; rfl
  | klass index =>
    rw [dropInterface, place]
    apply Arena.field_get_modify Class.superclass?
    exact fun _ => rfl

/-- Without its only entry an interface is not named, and all others are. -/
theorem mem_resolvedInterfaces_dropInterface
    (entered : program.foundInterface? entry = some (.resolved interface))
    (once : ∀ position, program.foundInterface? ⟨entry.classifier, position⟩ =
      some (.resolved interface) → position = entry.position) {other : InterfaceIndex} :
    other ∈ ((program.dropInterface entry).classifier entry.classifier).resolvedInterfaces ↔
      other ∈ (program.classifier entry.classifier).resolvedInterfaces ∧ other ≠ interface := by
  rw [dropInterface, classifier_modifyClassifier_self (holds_of_foundInterface? entered)]
  simp only [Classifier.resolvedInterfaces, List.mem_filterMap, Resolution.value?_eq_some,
    exists_eq_right, List.mem_eraseIdx_iff_getElem?]
  constructor
  · rintro ⟨position, apart, found⟩
    refine ⟨List.mem_of_getElem? found, ?_⟩
    rintro rfl
    exact apart (once position found)
  · rintro ⟨named, different⟩
    obtain ⟨position, found⟩ := List.getElem?_of_mem named
    refine ⟨position, ?_, found⟩
    rintro rfl
    cases entered.symm.trans found
    exact different rfl

/-- Without the only entry of an interface just the one parent is lost. -/
theorem hasParent_dropInterface
    (entered : program.foundInterface? entry = some (.resolved interface))
    (once : ∀ position, program.foundInterface? ⟨entry.classifier, position⟩ =
      some (.resolved interface) → position = entry.position) (first second : ClassifierIndex) :
    (program.dropInterface entry).HasParent first second ↔ program.HasParent first second ∧
      ¬ (first = entry.classifier ∧ second = .interface interface) := by
  simp only [HasParent, mem_parents_iff, HasSuperclass, superclass?_dropInterface]
  by_cases same : first = entry.classifier
  · subst same
    simp only [mem_resolvedInterfaces_dropInterface entered once, true_and]
    constructor
    · rintro (⟨klass, superclass, isClass, named, rfl⟩ | ⟨other, ⟨named, different⟩, rfl⟩)
      · exact ⟨.inl ⟨klass, superclass, isClass, named, rfl⟩, by simp⟩
      · exact ⟨.inr ⟨other, named, rfl⟩, fun equal =>
          different (ClassifierIndex.interface.inj equal)⟩
    · rintro ⟨superclass | ⟨other, named, rfl⟩, different⟩
      · exact .inl superclass
      · exact .inr ⟨other, ⟨named, fun equal => different (congrArg _ equal)⟩, rfl⟩
  · simp only [dropInterface, classifier_modifyClassifier_of_ne same, same, false_and,
      not_false_eq_true, and_true]

theorem implements_iff :
    program.implements classifier interface ↔
      classifier ≠ .interface interface ∧ program.Inherits classifier (.interface interface) := by
  rw [implements, decide_eq_true_iff, mem_allInterfaces_iff, ne_comm]

/-- The rule looks for another parent that implements the interface. -/
theorem isRedundant_iff :
    Rules.isRedundant program classifier interface ↔
      ∃ parent, program.HasParent classifier parent ∧ parent ≠ .interface interface ∧
        program.Inherits parent (.interface interface) := by
  simp only [Rules.isRedundant, HasParent, mem_parents_iff, Bool.or_eq_true, List.any_eq_true,
    Bool.and_eq_true, decide_eq_true_iff, implements_iff]
  constructor
  · rintro (⟨other, named, -, apart, inherits⟩ | through)
    · exact ⟨_, .inr ⟨other, named, rfl⟩, apart, inherits⟩
    · cases classifier with
      | interface index => cases through
      | klass klass =>
        change (program.superclass? klass).any _ = true at through
        cases named : program.superclass? klass with
        | none =>
          rw [named] at through
          cases through
        | some superclass =>
          rw [named] at through
          exact ⟨_, .inl ⟨klass, superclass, rfl, named, rfl⟩, implements_iff.mp through⟩
  · rintro ⟨parent, ⟨klass, superclass, rfl, named, rfl⟩ | ⟨other, named, rfl⟩, apart, inherits⟩
    · refine .inr ?_
      change (program.superclass? klass).any _ = true
      rw [show program.superclass? klass = some superclass from named]
      exact implements_iff.mpr ⟨apart, inherits⟩
    · exact .inl ⟨other, named, fun same => apart (congrArg _ same), apart, inherits⟩

/-- Without cycles an entry is redundant exactly when the interface is implemented without
it. -/
theorem mem_allInterfaces_dropInterface_iff (acyclic : program.Acyclic)
    (entered : program.foundInterface? entry = some (.resolved interface))
    (once : ∀ position, program.foundInterface? ⟨entry.classifier, position⟩ =
      some (.resolved interface) → position = entry.position) :
    interface ∈ (program.dropInterface entry).allInterfaces entry.classifier ↔
      Rules.isRedundant program entry.classifier interface := by
  have named : program.HasParent entry.classifier (.interface interface) :=
    mem_parents_iff.mpr (.inr ⟨interface, List.mem_filterMap.mpr
      ⟨_, List.mem_of_getElem? entered, rfl⟩, rfl⟩)
  have apart : ClassifierIndex.interface interface ≠ entry.classifier := by
    intro same
    rw [same] at named
    exact acyclic _ (.single named)
  rw [mem_allInterfaces_iff, and_iff_right apart, isRedundant_iff]
  exact reaches_without_edge_iff acyclic (hasParent_dropInterface entered once) apart

/-- What is written in an implements clause, entry by entry, and what it was resolved to. -/
def implementsClause (program : Program) (classifier : ClassifierIndex) :
    List (Syntax.Identifier × Resolution InterfaceIndex) :=
  (program.classifier classifier).declaredInterfaces.zip (program.classifier classifier).interfaces

/-- The entries of all implements clauses. -/
def clauseEntries (program : Program) : List ClauseEntry :=
  program.classifiers.flatMap fun classifier =>
    (List.range (program.implementsClause classifier).length).map (ClauseEntry.mk classifier)

theorem nodup_clauseEntries (program : Program) : program.clauseEntries.Nodup := by
  refine List.nodup_flatMap.mpr ⟨fun classifier _ => ?_, ?_⟩
  · exact List.nodup_range.map fun _ _ same => (ClauseEntry.mk.inj same).2
  · refine program.nodup_classifiers.imp fun different entry isFirst isSecond => ?_
    obtain ⟨_, -, rfl⟩ := List.mem_map.mp isFirst
    obtain ⟨_, -, same⟩ := List.mem_map.mp isSecond
    exact different (congrArg ClauseEntry.classifier same).symm

theorem getElem?_implementsClause {name : Syntax.Identifier} :
    (program.implementsClause entry.classifier)[entry.position]? = some (name, found) ↔
      program.writtenInterface? entry = some name ∧ program.foundInterface? entry = some found :=
  List.getElem?_zip_eq_some

theorem mem_clauseEntries : entry ∈ program.clauseEntries ↔ ∃ name found,
    program.writtenInterface? entry = some name ∧ program.foundInterface? entry = some found := by
  simp only [clauseEntries, List.mem_flatMap, List.mem_map, List.mem_range,
    ← getElem?_implementsClause]
  constructor
  · rintro ⟨classifier, -, position, inside, rfl⟩
    exact ⟨_, _, List.getElem?_eq_getElem inside⟩
  · rintro ⟨name, found, here⟩
    have entered := (getElem?_implementsClause.mp here).2
    exact ⟨entry.classifier, mem_classifiers.mpr (holds_of_foundInterface? entered),
      entry.position, (List.getElem?_eq_some_iff.mp here).1, rfl⟩

/-- The diagnostic that reports an entry, at the name that is written there. -/
def ReportsRedundancy (program : Program) (entry : ClauseEntry) (diagnostic : Diagnostic) : Prop :=
  let classifier := program.classifier entry.classifier
  ∃ name, program.writtenInterface? entry = some name ∧ diagnostic = Finding.diagnostic
    ⟨.redundantInterface name.name classifier.name, classifier.header.unit, name.span⟩

end Program

namespace Rules

variable {workspace : Workspace} {index : ClassifierIndex}

/-- What the rules find about the redundancy of an interface that a classifier names. -/
def redundancies (workspace : Workspace) (index : ClassifierIndex)
    (named : Syntax.Identifier × Resolution InterfaceIndex) : List Finding :=
  (implementedInterface workspace index named.1 named.2).filter
    (·.problem.kind = .redundantInterface)

theorem redundancies_resolved (name : Syntax.Identifier) (interface : InterfaceIndex) :
    redundancies workspace index (name, .resolved interface) =
      if isRedundant workspace.program index interface then
        [⟨.redundantInterface name.name (workspace.program.classifier index).name,
          (workspace.program.classifier index).header.unit, name.span⟩] else [] := by
  simp only [redundancies, implementedInterface, List.filter_append]
  split <;> split <;> rfl

/-- Only what was found can be redundant. -/
theorem redundancies_unresolved (name : Syntax.Identifier) (unresolved : found.value? = none) :
    redundancies workspace index (name, found) = [] := by
  cases found with
  | resolved interface => cases unresolved
  | ambiguous => rfl
  | notFound =>
    simp only [redundancies, implementedInterface]
    split <;> rfl

/-- Of what a classifier inherits from only its interfaces can be redundant. -/
theorem filter_inheritanceOf (workspace : Workspace) (index : ClassifierIndex) :
    (inheritanceOf workspace index).filter (·.problem.kind = .redundantInterface) =
      (workspace.program.implementsClause index).flatMap (redundancies workspace index) := by
  rw [inheritanceOf, List.filter_append, List.filter_append,
    (reports_interfaceCycle _ index).ofKinds.filter_eq_nil .redundantInterface (by decide),
    (ofKinds_superclass _ index).filter_eq_nil .redundantInterface (by decide),
    List.append_nil, List.append_nil, List.filter_flatMap]
  rfl

/-- What the rules find about the redundancy of an entry. -/
def redundanciesAt (workspace : Workspace) (entry : ClauseEntry) : List Finding :=
  (workspace.program.implementsClause entry.classifier)[entry.position]?.elim []
    (redundancies workspace entry.classifier)

/-- The findings about redundancy, entry by entry. -/
theorem filter_findings_redundant (workspace : Workspace) :
    workspace.findings.filter (·.problem.kind = .redundantInterface) =
      workspace.program.clauseEntries.flatMap (redundanciesAt workspace) := by
  rw [workspace.filter_findings]
  change (inheritance workspace).filter _ ++ [] = _
  rw [inheritance, List.append_nil, List.filter_append,
    (ofKinds_memberTypes workspace.program).filter_eq_nil .redundantInterface (by decide),
    List.append_nil, List.filter_flatMap, Program.clauseEntries, List.flatMap_assoc]
  refine List.flatMap_congr fun classifier _ => ?_
  rw [filter_inheritanceOf, List.flatMap_map]
  exact (flatMap_range_getElem? ..).symm

/-- The interface of the entry is implemented by another parent. -/
def RedundantAt (program : Program) (entry : ClauseEntry) : Prop :=
  ∃ interface, program.foundInterface? entry = some (.resolved interface) ∧
    isRedundant program entry.classifier interface

/-- An entry is reported once if it is redundant, and not otherwise. -/
theorem redundanciesAt_cases {entry : ClauseEntry}
    (listed : entry ∈ workspace.program.clauseEntries) :
    RedundantAt workspace.program entry ∧
      (∃ finding, redundanciesAt workspace entry = [finding] ∧
        workspace.program.ReportsRedundancy entry finding.diagnostic) ∨
      ¬ RedundantAt workspace.program entry ∧ redundanciesAt workspace entry = [] := by
  obtain ⟨name, found, written, entered⟩ := Program.mem_clauseEntries.mp listed
  have here : redundanciesAt workspace entry =
      redundancies workspace entry.classifier (name, found) := by
    rw [redundanciesAt, Program.getElem?_implementsClause.mpr ⟨written, entered⟩]
    rfl
  rw [here]
  cases value : found.value? with
  | none =>
    refine .inr ⟨?_, redundancies_unresolved name value⟩
    rintro ⟨interface, resolved, -⟩
    cases entered.symm.trans resolved
    cases value
  | some interface =>
    cases Resolution.value?_eq_some.mp value
    rw [redundancies_resolved]
    split
    · next redundant =>
      exact .inl ⟨⟨interface, entered, redundant⟩, _, rfl, name, written, rfl⟩
    · next kept =>
      refine .inr ⟨?_, rfl⟩
      rintro ⟨other, resolved, redundant⟩
      cases entered.symm.trans resolved
      exact kept redundant

end Rules

namespace Workspace

variable {workspace : Workspace}

/-- The diagnostics about redundancy belong to entries, one by one. The entries that are the only
ones with their name and that were found are among them exactly when the interface is
implemented without the entry. -/
def ReportsRedundancies (workspace : Workspace) (diagnostics : List Diagnostic) : Prop :=
  ∃ reported : List ClauseEntry, reported.Nodup ∧
    List.Forall₂ workspace.program.ReportsRedundancy reported
      (diagnostics.filter (·.kind = .redundantInterface)) ∧
    ∀ entry name interface, workspace.program.writtenInterface? entry = some name →
      workspace.program.foundInterface? entry = some (.resolved interface) →
      (∀ position other, workspace.program.writtenInterface? ⟨entry.classifier, position⟩ =
        some other → other.name = name.name → position = entry.position) →
      (entry ∈ reported ↔
        interface ∈ (workspace.program.dropInterface entry).allInterfaces entry.classifier)

/-- Without cycles redundancy is reported exactly. -/
theorem reportsRedundancies (linked : workspace.program.LinkedDeclarations workspace.registry)
    (names : workspace.registry.Names workspace.program) (acyclic : workspace.program.Acyclic) :
    workspace.ReportsRedundancies (workspace.findings.map Finding.diagnostic) := by
  obtain ⟨reported, sublist, member, related⟩ :=
    exists_reported fun entry (listed : entry ∈ workspace.program.clauseEntries) =>
      Rules.redundanciesAt_cases listed
  refine ⟨reported, sublist.nodup workspace.program.nodup_clauseEntries, ?_, ?_⟩
  · rw [List.filter_map, List.forall₂_map_right_iff]
    exact (Rules.filter_findings_redundant workspace).symm ▸ related
  · intro entry name interface written entered only
    have listed := Program.mem_clauseEntries.mpr ⟨name, _, written, entered⟩
    rw [member, and_iff_right listed, Program.mem_allInterfaces_dropInterface_iff acyclic entered]
    · constructor
      · rintro ⟨other, found, redundant⟩
        cases entered.symm.trans found
        exact redundant
      · exact fun redundant => ⟨interface, entered, redundant⟩
    · intro position found
      obtain ⟨other, also, same⟩ := linked.exists_written found
      obtain ⟨_, here, looked⟩ := linked.exists_written entered
      cases written.symm.trans here
      refine only position other also ?_
      rw [← (names.interfaces.of_find same).2, (names.interfaces.of_find looked).2]

end Workspace

/-- Redundant interfaces are reported exactly: in a program without cycles the entry of an
interface that was found and is named once is reported if and only if the classifier implements
the interface without the entry. -/
theorem redundancies_reported_exactly (options : Options) (units : List CompilationUnit)
    (after : Workspace) (returns : Phase.analyze.perform { options, units } = (.ok (), after))
    (none : ∀ diagnostic ∈ after.report.diagnostics, diagnostic.kind ≠ .circularInheritance) :
    after.ReportsRedundancies after.report.diagnostics := by
  obtain ⟨analysed, recorded, fragments, known, rfl⟩ := Phase.returns_analyze returns
  rw [Workspace.diagnostics_reportAll known.report] at none ⊢
  exact Workspace.reportsRedundancies known.declarations known.names
    ((Workspace.reportsCycles known.declarations).acyclic none)

namespace Sample

open Syntax

/-- An interface that names another one also by way of a third. -/
def books : SourceTree where
  package := ⟨.bare, "com.example"⟩
  elements := [interface "Named" [], interface "Titled" ["Named"],
    interface "Book" ["Named", "Titled"]]

end Sample

/-- Of the two entries the first is redundant. -/
theorem redundancies_reported_exactly_books : ∃ after, Phase.analyze.perform
      { options := {}, units := [.ofTree ⟨0⟩ "books" Sample.books] } = (.ok (), after) ∧
    after.report.diagnostics.map (·.kind) = [.redundantInterface] ∧
    after.ReportsRedundancies after.report.diagnostics := by
  have seen : (Phase.analyze.perform
      { options := {}, units := [.ofTree ⟨0⟩ "books" Sample.books] }).map Except.toOption
        (fun after => after.report.diagnostics.map (·.kind)) =
      (some (), [.redundantInterface]) := by cbv
  obtain ⟨after, returns, seen⟩ := Phase.exists_returns_of_map_eq seen
  refine ⟨after, returns, seen, redundancies_reported_exactly _ _ _ returns ?_⟩
  intro diagnostic listed circular
  have kind := List.mem_map_of_mem listed (f := (·.kind))
  rw [seen, circular] at kind
  simp at kind

end DomainLang
