import DomainLang.Proofs.Findings
import DomainLang.Proofs.Findings.Reports
import DomainLang.Proofs.Hierarchy.Conformance

/-!
# Cycles are reported exactly

A class that reaches itself along superclasses and an interface that reaches itself along
interfaces are each reported once, and nothing else is reported as a cycle: what merely leads
into a cycle is not. So where no cycle is reported, no classifier inherits from itself.
-/

namespace DomainLang

open Relation (ReflTransGen TransGen)
open Resolved

namespace Program

variable {program : Program} {registry : Registry}

/-- No classifier inherits from itself. -/
def Acyclic (program : Program) : Prop :=
  ∀ classifier, ¬ TransGen program.HasParent classifier classifier

/-- A class reaches itself along superclasses, or an interface along interfaces. -/
def InheritsItself (program : Program) : ClassifierIndex → Prop
  | .klass klass => TransGen program.HasSuperclass klass klass
  | .interface interface => TransGen program.HasInterface interface interface

/-- Nothing else inherits from itself. -/
theorem acyclic_of_not_inheritsItself
    (none : ∀ classifier, ¬ program.InheritsItself classifier) : program.Acyclic := by
  intro classifier cycle
  refine none classifier ?_
  obtain ⟨parent, first, onward⟩ := TransGen.head'_iff.mp cycle
  cases classifier with
  | interface interface =>
    obtain ⟨start, implemented, rfl⟩ := List.mem_map.mp first
    obtain ⟨same, equal, reaches⟩ := exists_interface_of_inherits onward
    cases equal
    exact TransGen.head'_iff.mpr ⟨start, implemented, reaches⟩
  | klass klass =>
    rcases mem_parents_klass.mp first with ⟨superclass, named, rfl⟩ | ⟨interface, -, rfl⟩
    · exact TransGen.head'_iff.mpr ⟨superclass, named, inherits_klass_iff.mp onward⟩
    · obtain ⟨_, absurd, -⟩ := exists_interface_of_inherits onward
      cases absurd

/-- No class of a program without cycles is its own ancestor. -/
theorem Acyclic.superclasses (acyclic : program.Acyclic) (klass : ClassIndex) :
    ¬ TransGen program.HasSuperclass klass klass := by
  intro cycle
  refine acyclic (.klass klass) (TransGen.lift ClassifierIndex.klass ?_ _ _ cycle)
  exact fun child parent named => mem_parents_klass.mpr (.inl ⟨parent, named, rfl⟩)

/-- What inherits from itself is there. -/
theorem holds_of_inheritsItself {classifier : ClassifierIndex}
    (cycle : program.InheritsItself classifier) : program.HoldsClassifier classifier := by
  cases classifier with
  | klass klass =>
    obtain ⟨parent, named, -⟩ := TransGen.head'_iff.mp cycle
    by_contra absent
    cases (superclass?_of_not_mem klass (mt Arena.mem_indices.mp absent)).symm.trans named
  | interface interface =>
    obtain ⟨parent, named, -⟩ := TransGen.head'_iff.mp cycle
    by_contra absent
    rw [HasInterface, parentInterfaces_of_not_mem interface
      (mt Arena.mem_indices.mp absent)] at named
    cases named

/-- A superclass that was found was looked up by its written name. -/
theorem LinkedDeclarations.exists_of_superclass? (linked : program.LinkedDeclarations registry)
    {klass parent : ClassIndex} (found : program.superclass? klass = some parent) :
    program.classes.Holds klass ∧
      (program.classes.get klass).superclass = some (.resolved parent) ∧
      ∃ name, (program.classes.get klass).declaredSuperclass = some name ∧
        registry.classes.find name.name = .resolved parent := by
  have holds : program.classes.Holds klass := by
    by_contra absent
    rw [superclass?, Arena.get_of_not_holds absent] at found
    cases found
  rw [superclass?, Class.superclass?, Option.bind_eq_some_iff] at found
  obtain ⟨resolution, stored, resolved⟩ := found
  rw [Resolution.value?_eq_some] at resolved
  subst resolved
  have looked := linked.superclasses klass holds
  rw [stored] at looked
  obtain ⟨name, declared, lookup⟩ := Option.map_eq_some_iff.mp looked.symm
  exact ⟨holds, stored, name, declared, lookup⟩

/-- The diagnostic that reports a classifier: a class where it names its superclass, an interface
at its own name. -/
def ReportsCycle (program : Program) : ClassifierIndex → Diagnostic → Prop
  | .klass index, diagnostic =>
      let klass := program.classes.get index
      ∃ name, klass.declaredSuperclass = some name ∧ diagnostic =
        Finding.diagnostic ⟨.superclassCycle klass.name name.name, klass.header.unit, name.span⟩
  | .interface index, diagnostic =>
      let header := (program.interfaces.get index).header
      diagnostic =
        Finding.diagnostic ⟨.interfaceCycle header.name.name, header.unit, header.name.span⟩

end Program

namespace Rules

variable {workspace : Workspace}

/-- What the rules for one classifier find about cycles. -/
def cycles (workspace : Workspace) (index : ClassifierIndex) : List Finding :=
  (inheritanceOf workspace index).filter (·.problem.kind = .circularInheritance)

/-- The interfaces that a classifier names are not searched one by one. -/
theorem cycles_eq (workspace : Workspace) (index : ClassifierIndex) :
    cycles workspace index =
      (interfaceCycle workspace.program index).filter (·.problem.kind = .circularInheritance) ++
      (superclass workspace index).filter (·.problem.kind = .circularInheritance) := by
  let classifier := workspace.program.classifier index
  have named : OfKinds implementedKinds
      ((classifier.declaredInterfaces.zip classifier.interfaces).flatMap fun pair =>
        implementedInterface workspace index pair.1 pair.2) :=
    .flatMap fun _ => reports_implementedInterface.ofKinds
  have none := named.filter_eq_nil .circularInheritance (by decide)
  rw [cycles, inheritanceOf, List.filter_append, List.filter_append]
  exact congrArg (· ++ _ ++ _) none

/-- A classifier is reported once if it inherits from itself, and not otherwise. -/
theorem cycles_cases
    (linked : workspace.program.LinkedDeclarations workspace.registry)
    (classifier : ClassifierIndex) :
    workspace.program.InheritsItself classifier ∧
      (∃ finding, cycles workspace classifier = [finding] ∧
        workspace.program.ReportsCycle classifier finding.diagnostic) ∨
      ¬ workspace.program.InheritsItself classifier ∧ cycles workspace classifier = [] := by
  rw [cycles_eq]
  cases classifier with
  | interface index =>
    by_cases cycle : workspace.program.InheritsItself (.interface index)
    · refine .inl ⟨cycle, _, ?_, rfl⟩
      simp only [interfaceCycle, Program.interfaceCycle_iff.mpr cycle]
      rfl
    · refine .inr ⟨cycle, ?_⟩
      simp only [interfaceCycle, mt Program.interfaceCycle_iff.mp cycle]
      rfl
  | klass index =>
    by_cases cycle : workspace.program.InheritsItself (.klass index)
    · obtain ⟨parent, found, -⟩ := TransGen.head'_iff.mp cycle
      obtain ⟨-, stored, name, declared, -⟩ := linked.exists_of_superclass? found
      refine .inl ⟨cycle, _, ?_, name, declared, rfl⟩
      simp only [superclass, declared, stored, (Program.superclassCycle_iff found).mpr cycle]
      rfl
    · refine .inr ⟨cycle, ?_⟩
      simp only [superclass]
      split
      · next name parent _ stored =>
        have found : workspace.program.HasSuperclass index parent := by
          rw [Program.HasSuperclass, Program.superclass?, Class.superclass?, stored]
          rfl
        rw [if_neg (mt (Program.superclassCycle_iff found).mp cycle)]
        rfl
      · split <;> rfl
      · rfl

end Rules

namespace Workspace

variable {workspace : Workspace}

/-- Nothing but the rules for inheritance is about cycles. -/
theorem filter_findings_circular (workspace : Workspace) :
    workspace.findings.filter (·.problem.kind = .circularInheritance) =
      workspace.program.classifiers.flatMap (Rules.cycles workspace) := by
  rw [filter_findings]
  change (Rules.inheritance workspace).filter _ ++ [] = _
  rw [Rules.inheritance, List.append_nil, List.filter_append,
    (Rules.ofKinds_memberTypes workspace.program).filter_eq_nil .circularInheritance (by decide),
    List.append_nil, List.filter_flatMap]
  rfl

/-- The classifiers that inherit from themselves, each once and with its diagnostic, are those
with a diagnostic about a cycle. -/
def ReportsCycles (workspace : Workspace) (diagnostics : List Diagnostic) : Prop :=
  ∃ reported : List ClassifierIndex, reported.Nodup ∧
    (∀ classifier, classifier ∈ reported ↔ workspace.program.InheritsItself classifier) ∧
    List.Forall₂ workspace.program.ReportsCycle reported
      (diagnostics.filter (·.kind = .circularInheritance))

/-- What inherits from itself is reported, each classifier once. -/
theorem reportsCycles (linked : workspace.program.LinkedDeclarations workspace.registry) :
    workspace.ReportsCycles (workspace.findings.map Finding.diagnostic) := by
  obtain ⟨reported, sublist, member, related⟩ :=
    exists_reported fun classifier (_ : classifier ∈ workspace.program.classifiers) =>
      Rules.cycles_cases linked classifier
  refine ⟨reported, sublist.nodup workspace.program.nodup_classifiers, fun classifier => ?_, ?_⟩
  · rw [member]
    exact and_iff_right_of_imp fun cycle =>
      Program.mem_classifiers.mpr (Program.holds_of_inheritsItself cycle)
  · rw [List.filter_map, List.forall₂_map_right_iff]
    exact (filter_findings_circular workspace).symm ▸ related

/-- Where no cycle is reported there is none. -/
theorem ReportsCycles.acyclic {diagnostics : List Diagnostic}
    (reports : workspace.ReportsCycles diagnostics)
    (none : ∀ diagnostic ∈ diagnostics, diagnostic.kind ≠ .circularInheritance) :
    workspace.program.Acyclic := by
  obtain ⟨reported, -, member, related⟩ := reports
  have silent : diagnostics.filter (·.kind = .circularInheritance) = [] :=
    List.filter_eq_nil_iff.mpr fun diagnostic listed circular =>
      none diagnostic listed (of_decide_eq_true circular)
  rw [silent, List.forall₂_nil_right_iff] at related
  refine Program.acyclic_of_not_inheritsItself fun classifier cycle => ?_
  have listed := (member classifier).mpr cycle
  rw [related] at listed
  cases listed

/-- Cycles are errors. -/
theorem ErrorFree.acyclic (free : workspace.ErrorFree)
    (linked : workspace.program.LinkedDeclarations workspace.registry) :
    workspace.program.Acyclic := by
  refine (reportsCycles linked).acyclic fun diagnostic listed circular => ?_
  obtain ⟨finding, member, rfl⟩ := List.mem_map.mp listed
  have warning := free finding member
  rw [show finding.problem.kind = .circularInheritance from circular] at warning
  cases warning

end Workspace
end DomainLang
