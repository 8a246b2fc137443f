import DomainLang.Proofs.Declaration.Requests
import DomainLang.Proofs.Names

/-!
# Declaring top-level declarations

`Program.Describes` says that a record holds what is written in a declaration, and
`Phase.DeclaresRecord` what making the record of a declaration does to a workspace, in one
form for all kinds. Declaring an element then only adds its name, its context and its
ordinal.
-/

namespace DomainLang

open Resolved

def Resolved.Header.ofElement (unit : CompilationUnit) (ordinal : Nat)
    (element : Syntax.Declaration) : Header where
  name := element.name
  package := unit.package
  ordinal
  unit := unit.id
  sourceName := unit.sourceName
  context := unit.context element.node.id
  span := element.node.span

/-- The record at an index holds what is written in a declaration. -/
inductive Program.Describes (program : Program) (header : Header) :
    Syntax.Declaration → TopLevelIndex → Prop where
  | enumeration {declaration : Syntax.Enumeration} {index : EnumerationIndex}
      (holds : program.enumerations.Holds index)
      (written : program.enumerations.get index =
        { header, literals := declaration.literals }) :
      Describes program header (.enumeration declaration) (.enumeration index)
  | interface {declaration : Syntax.Interface} {index : InterfaceIndex}
      (holds : program.interfaces.Holds index)
      (written : (program.interfaces.get index).written =
        { header, modifiers := declaration.modifiers
          declaredInterfaces := declaration.interfaces }) :
      Describes program header (.interface declaration) (.interface index)
  | klass {declaration : Syntax.Class} {index : ClassIndex}
      (holds : program.classes.Holds index)
      (written : (program.classes.get index).written =
        { header, modifiers := declaration.modifiers
          declaredInterfaces := declaration.interfaces
          isUser := declaration.isUser
          abstraction := declaration.abstraction
          declaredSuperclass := declaration.superclass }) :
      Describes program header (.klass declaration) (.klass index)
  | association {declaration : Syntax.Association} {index : AssociationIndex}
      {source target : AssociationEndIndex}
      (holds : program.associations.Holds index)
      (written : (program.associations.get index).unlinked =
        { header, source, target, declaredRelationship := declaration.relationship })
      (holdsSource : program.associationEnds.Holds source)
      (sourceWritten : (program.associationEnds.get source).declaration = declaration.source)
      (holdsTarget : program.associationEnds.Holds target)
      (targetWritten : (program.associationEnds.get target).declaration = declaration.target) :
      Describes program header (.association declaration) (.association index)
  | projection {declaration : Syntax.Projection} {index : ProjectionIndex}
      (holds : program.projections.Holds index)
      (written : (program.projections.get index).unlinked =
        { header, classifierName := declaration.classifier
          declaredChildren := declaration.children }) :
      Describes program header (.projection declaration) (.projection index)
  | serviceGroup {declaration : Syntax.ServiceGroup} {index : ServiceGroupIndex}
      {urls : List UrlIndex}
      (holds : program.serviceGroups.Holds index)
      (written : (program.serviceGroups.get index).unlinked =
        { header, className := declaration.target, urls })
      (holdsUrls : ∀ url ∈ urls, program.urls.Holds url)
      (urlsWritten : urls.map (fun url => (program.urls.get url).declaration) =
        declaration.urls) :
      Describes program header (.serviceGroup declaration) (.serviceGroup index)

namespace Program.Describes

variable {before after : Program} {header : Header} {element : Syntax.Declaration}
  {index : TopLevelIndex}

theorem holds (describes : before.Describes header element index) :
    before.HoldsTopLevel index := by
  cases describes <;> assumption

/-- A record that is kept still holds what is written. -/
theorem of_keeps (describes : before.Describes header element index)
    (keeps : before.Keeps after) : after.Describes header element index := by
  cases describes with
  | enumeration holds written =>
    obtain ⟨held, same⟩ := keeps.enumerations _ holds
    exact .enumeration held (same.trans written)
  | interface holds written =>
    obtain ⟨held, same⟩ := keeps.interfaces _ holds
    exact .interface held (same.trans written)
  | klass holds written =>
    obtain ⟨held, same⟩ := keeps.classes _ holds
    exact .klass held (same.trans written)
  | association holds written holdsSource sourceWritten holdsTarget targetWritten =>
    obtain ⟨held, same⟩ := keeps.associations _ holds
    have ofEnd {associationEnd : AssociationEndIndex}
        (holdsEnd : before.associationEnds.Holds associationEnd) :
        after.associationEnds.Holds associationEnd ∧
          (after.associationEnds.get associationEnd).declaration =
            (before.associationEnds.get associationEnd).declaration := by
      obtain ⟨heldEnd, sameEnd⟩ := keeps.associationEnds _ holdsEnd
      have declaration := congrArg AssociationEnd.declaration sameEnd
      exact ⟨heldEnd, declaration⟩
    exact .association held (same.trans written) (ofEnd holdsSource).1
      ((ofEnd holdsSource).2.trans sourceWritten) (ofEnd holdsTarget).1
      ((ofEnd holdsTarget).2.trans targetWritten)
  | projection holds written =>
    obtain ⟨held, same⟩ := keeps.projections _ holds
    exact .projection held (same.trans written)
  | serviceGroup holds written holdsUrls urlsWritten =>
    obtain ⟨held, same⟩ := keeps.serviceGroups _ holds
    refine .serviceGroup held (same.trans written)
      (fun url member => (keeps.urls url (holdsUrls url member)).1) ?_
    rw [← urlsWritten]
    apply List.map_congr_left
    intro url member
    have sameUrl := (keeps.urls url (holdsUrls url member)).2
    exact congrArg Url.declaration sameUrl

end Program.Describes

/-- No classifier has members or ends yet, no service has an inferred clause, and nothing refers
to a property. -/
structure Program.Memberless (program : Program) : Prop where
  properties : program.properties = {}
  endSignatures : program.endSignatures = {}
  associationEnds : ∀ klass, (program.classes.get klass).associationEnds = []
  clauses : program.ClausesDeclared
  referenced : program.referencedProperties = []

namespace Phase

/-- What making the record of a declaration does. -/
structure DeclaresRecord (unit : CompilationUnit) (header : Header)
    (element : Syntax.Declaration) (index : TopLevelIndex) (before after : Workspace) : Prop where
  declares : before.Declares unit.id element.innerIds after
  coherent : after.program.Coherent none none
  describes : after.program.Describes header element index
  fresh : ¬ before.program.HoldsTopLevel index
  held : ∀ other, after.program.HoldsTopLevel other ↔
    before.program.HoldsTopLevel other ∨ other = index
  names : ∀ registry : Registry, registry.Names before.program →
    (registry.registerName header.name.name index).Names after.program
  memberless : before.program.Memberless → after.program.Memberless

section Records

variable {unit : CompilationUnit} {header : Header} {before after : Workspace}
  {index : TopLevelIndex}

theorem returns_declareEnumeration {declaration : Syntax.Enumeration}
    (coherent : before.program.Coherent none none)
    (returns : (declareEnumeration header declaration).Returns before index after) :
    DeclaresRecord unit header (.enumeration declaration) index before after := by
  simp only [declareEnumeration, returns_get_bind, returns_modifyProgram_bind,
    returns_pure] at returns
  obtain ⟨rfl, rfl⟩ := returns
  let record : Enumeration :=
    { header, literals := declaration.literals }
  exact
    { declares := .modifyProgram (.addEnumeration record)
      coherent := { coherent with properties := coherent.properties }
      describes := .enumeration (Arena.holds_push_next ..) (Arena.get_push_next ..)
      fresh := Arena.not_holds_next _
      held := fun _ => Program.holdsTopLevel_addEnumeration record
      names := fun registry names => names.addEnumeration record
      memberless := fun none =>
        ⟨none.properties, none.endSignatures, none.associationEnds, none.clauses,
          none.referenced⟩ }

theorem returns_declareInterface {declaration : Syntax.Interface}
    (coherent : before.program.Coherent none none)
    (returns : (declareInterface header declaration).Returns before index after) :
    DeclaresRecord unit header (.interface declaration) index before after := by
  simp only [declareInterface, returns_get_bind, returns_modifyProgram_bind,
    returns_pure] at returns
  obtain ⟨rfl, rfl⟩ := returns
  let record : Classifier :=
    { header, modifiers := declaration.modifiers
      declaredInterfaces := declaration.interfaces }
  exact
    { declares := .modifyProgram (.addInterface record)
      coherent := coherent.addInterface rfl rfl
      describes := .interface (Arena.holds_push_next ..)
        (congrArg Classifier.written (Arena.get_push_next ..))
      fresh := Arena.not_holds_next _
      held := fun _ => Program.holdsTopLevel_addInterface record
      names := fun registry names => names.addInterface record
      memberless := fun none =>
        ⟨none.properties, none.endSignatures, none.associationEnds, none.clauses,
          none.referenced⟩ }

theorem returns_declareClass {declaration : Syntax.Class}
    (coherent : before.program.Coherent none none)
    (returns : (declareClass header declaration).Returns before index after) :
    DeclaresRecord unit header (.klass declaration) index before after := by
  simp only [declareClass, returns_get_bind, returns_modifyProgram_bind, returns_pure] at returns
  obtain ⟨rfl, rfl⟩ := returns
  let record : Resolved.Class :=
    { header, modifiers := declaration.modifiers
      declaredInterfaces := declaration.interfaces
      isUser := declaration.isUser
      abstraction := declaration.abstraction
      declaredSuperclass := declaration.superclass }
  exact
    { declares := .modifyProgram (.addClass record)
      coherent := coherent.addClass rfl rfl
      describes := .klass (Arena.holds_push_next ..)
        (congrArg Class.written (Arena.get_push_next ..))
      fresh := Arena.not_holds_next _
      held := fun _ => Program.holdsTopLevel_addClass record
      names := fun registry names => names.addClass record
      memberless := by
        refine fun none => ⟨none.properties, none.endSignatures, fun klass => ?_, none.clauses,
          none.referenced⟩
        rcases before.program.classes.get_push_cases record klass with same | new
        · exact (congrArg Class.associationEnds same).trans (none.associationEnds klass)
        · exact congrArg Class.associationEnds new }

theorem returns_declareProjection {declaration : Syntax.Projection}
    (coherent : before.program.Coherent none none)
    (returns : (declareProjection header declaration).Returns before index after) :
    DeclaresRecord unit header (.projection declaration) index before after := by
  simp only [declareProjection, returns_get_bind, returns_modifyProgram_bind,
    returns_pure] at returns
  obtain ⟨rfl, rfl⟩ := returns
  let record : Projection :=
    { header, classifierName := declaration.classifier
      declaredChildren := declaration.children }
  exact
    { declares := .modifyProgram (.addProjection record)
      coherent := { coherent with properties := coherent.properties }
      describes := .projection (Arena.holds_push_next ..)
        (congrArg Projection.unlinked (Arena.get_push_next ..))
      fresh := Arena.not_holds_next _
      held := fun _ => Program.holdsTopLevel_addProjection record
      names := fun registry names => names.addProjection record
      memberless := fun none =>
        ⟨none.properties, none.endSignatures, none.associationEnds, none.clauses,
          none.referenced⟩ }

/-- The record of an association and those of its ends. -/
structure AssociationRecords where
  source : AssociationEnd
  target : AssociationEnd
  association : Association

/-- The records that an association adds to a program. -/
def AssociationRecords.ofDeclaration (program : Program) (unit : CompilationUnit)
    (header : Header) (declaration : Syntax.Association) : AssociationRecords :=
  let association := program.associations.next
  let source := program.associationEnds.next
  let target : AssociationEndIndex := ⟨source.value + 1⟩
  { source :=
      { association, isSource := true, declaration := declaration.source
        opposite := target, context := unit.context declaration.source.id }
    target :=
      { association, isSource := false, declaration := declaration.target
        opposite := source, context := unit.context declaration.target.id }
    association :=
      { header, source, target, declaredRelationship := declaration.relationship } }

def AssociationRecords.addEnds (records : AssociationRecords) (program : Program) : Program :=
  { program with
    associationEnds := (program.associationEnds.push records.source).push records.target }

/-- The program with an association and its ends. -/
def AssociationRecords.addTo (records : AssociationRecords) (program : Program) : Program :=
  { records.addEnds program with
    associations := program.associations.push records.association }

theorem program_declareAssociation {declaration : Syntax.Association}
    (returns : (declareAssociation unit header declaration).Returns before index after) :
    before.Declares unit.id [declaration.source.id, declaration.target.id] after ∧
      index = .association before.program.associations.next ∧
      after.program =
        (AssociationRecords.ofDeclaration before.program unit header declaration).addTo
          before.program := by
  simp only [declareAssociation, returns_get_bind, returns_modifyProgram_bind] at returns
  simp only [returns_bind, returns_modifyProgram, returns_pure] at returns
  obtain ⟨_, afterSource, registersSource, _, afterTarget, registersTarget, _, _, rfl, rfl, rfl⟩ :=
    returns
  obtain ⟨declaresSource, sourceProgram, -⟩ := declares_registerContext registersSource
  obtain ⟨declaresTarget, targetProgram, -⟩ := declares_registerContext registersTarget
  let records := AssociationRecords.ofDeclaration before.program unit header declaration
  have endsProgram : afterTarget.program = records.addEnds before.program := by
    rw [targetProgram, sourceProgram]
    rfl
  have declaresEnds : before.Declares unit.id [declaration.source.id, declaration.target.id]
      afterTarget :=
    ((Workspace.Declares.modifyProgram (.addEnds records.source records.target)).trans
      declaresSource).trans declaresTarget
  refine ⟨declaresEnds.thenModify ?_, rfl, ?_⟩
  · rw [endsProgram]
    exact (Program.Keeps.addEnds ..).trans (.addAssociation _)
  · rw [Workspace.modifyProgram, endsProgram]
    rfl

/-- An association is declared after its two ends. -/
theorem returns_declareAssociation {declaration : Syntax.Association}
    (coherent : before.program.Coherent none none) (inUnit : unit.id = header.unit)
    (returns : (declareAssociation unit header declaration).Returns before index after) :
    DeclaresRecord unit header (.association declaration) index before after := by
  obtain ⟨declares, rfl, program⟩ := program_declareAssociation returns
  let records := AssociationRecords.ofDeclaration before.program unit header declaration
  let ends := before.program.associationEnds
  have targetNext : (ends.push records.source).next = records.association.target := by
    simp [Arena.next, ends, records, AssociationRecords.ofDeclaration]
  have sourceHolds : (ends.push records.source).Holds records.association.source :=
    Arena.holds_push_next ..
  refine ⟨declares, ?_, ?_, Arena.not_holds_next _, ?_, ?_, ?_⟩
  · rw [program]
    exact { coherent with ends := coherent.ends.push rfl rfl rfl rfl rfl rfl inUnit inUnit }
  · rw [program]
    have written : ((before.program.associations.push records.association).get
        before.program.associations.next).unlinked = records.association.unlinked :=
      congrArg Association.unlinked (Arena.get_push_next ..)
    refine .association (Arena.holds_push_next ..) written (sourceHolds.push records.target)
      ?_ ?_ ?_
    · change (((ends.push records.source).push records.target).get _).declaration = _
      rw [Arena.get_push_of_holds sourceHolds]
      exact congrArg AssociationEnd.declaration (Arena.get_push_next ..)
    · rw [← targetNext]
      exact Arena.holds_push_next ..
    · rw [← targetNext]
      exact congrArg AssociationEnd.declaration (Arena.get_push_next ..)
  · intro other
    rw [program]
    exact Program.holdsTopLevel_addAssociation records.association
  · intro registry names
    rw [program]
    have withEnds : registry.Names (records.addEnds before.program) :=
      names.of_keeps (.addEnds ..) ⟨rfl, rfl, rfl, rfl, rfl, rfl⟩
    exact withEnds.addAssociation records.association
  · rw [program]
    exact fun none => ⟨none.properties, none.endSignatures, none.associationEnds, none.clauses,
      none.referenced⟩

theorem succeeds_declareAssociation {declaration : Syntax.Association}
    (fresh : before.registry.Fresh
      [unit.context declaration.source.id, unit.context declaration.target.id]) :
    (declareAssociation unit header declaration).Succeeds before := by
  simp only [declareAssociation, succeeds_get_bind, succeeds_modifyProgram_bind]
  have split : before.registry.Fresh
      ([unit.context declaration.source.id] ++ [unit.context declaration.target.id]) := fresh
  refine .bind (succeeds_registerContext split.left) fun _ afterSource registers => ?_
  have started : before.Declares unit.id [declaration.source.id] afterSource :=
    (Workspace.Declares.modifyProgram (.addEnds _ _)).trans (declares_registerContext registers).1
  refine .bind (succeeds_registerContext (split.right started.toGrows)) fun _ _ _ => ?_
  exact succeeds_modifyProgram_bind.mpr (succeeds_pure ..)

/-- A service group is declared with its urls, and nothing else changes. -/
theorem declaresRecord_serviceGroup {declaration : Syntax.ServiceGroup}
    (coherent : before.program.Coherent none none) (inUnit : unit.id = header.unit)
    (returns : (declareServiceGroup unit header declaration).Returns before index after) :
    DeclaresRecord unit header (.serviceGroup declaration) index before after := by
  obtain ⟨declares, rfl, kept, clauses, urls, program, urlsWritten⟩ :=
    returns_declareServiceGroup coherent inUnit returns
  let record : ServiceGroup := { header, className := declaration.target, urls }
  let withGroup : Program :=
    { before.program with serviceGroups := before.program.serviceGroups.push record }
  have apart : after.program = { withGroup with
      urls := after.program.urls
      parameters := after.program.parameters
      services := after.program.services } := Program.eq_of_withoutRequests program
  have keeps : withGroup.Keeps after.program := by
    rw [apart]
    exact { Program.Keeps.refl withGroup with
      urls := declares.keeps.urls
      parameters := declares.keeps.parameters
      services := declares.keeps.services }
  have same : withGroup.SameTopLevel after.program := by
    rw [apart]
    exact ⟨rfl, rfl, rfl, rfl, rfl, rfl⟩
  have groups : after.program.serviceGroups = before.program.serviceGroups.push record :=
    congrArg Program.serviceGroups apart
  have atNext : after.program.serviceGroups.get before.program.serviceGroups.next = record := by
    rw [groups, Arena.get_push_next]
  have holds : after.program.serviceGroups.Holds before.program.serviceGroups.next := by
    rw [groups]
    exact Arena.holds_push_next ..
  refine ⟨declares, kept, ?_, Arena.not_holds_next _, ?_, ?_, ?_⟩
  · have written : (after.program.serviceGroups.get
        before.program.serviceGroups.next).unlinked = record.unlinked :=
      congrArg ServiceGroup.unlinked atNext
    refine .serviceGroup holds written ?_ urlsWritten
    · intro url member
      have listed : url ∈ (after.program.serviceGroups.get
          before.program.serviceGroups.next).urls := by rwa [atNext]
      exact ((kept.urls.mem_listed holds (by simp)).mp listed).1
  · intro other
    rw [same.holdsTopLevel_iff]
    exact Program.holdsTopLevel_addServiceGroup record
  · intro registry names
    exact (names.addServiceGroup record).of_keeps keeps same
  · intro none
    have stillDeclared := clauses none.clauses
    rw [apart] at stillDeclared ⊢
    exact ⟨none.properties, none.endSignatures, none.associationEnds, stillDeclared,
      none.referenced⟩

end Records
end Phase
end DomainLang
