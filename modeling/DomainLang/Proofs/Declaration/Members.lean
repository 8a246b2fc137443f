import DomainLang.Proofs.Declaration.Elements

/-!
# Declaring members

Members are added to a classifier in order, whether they are written in a source file or
inferred. `Workspace.AddsMembers` says what adding them does; it composes, so the properties
of a program are always those written, in source order, followed by those inferred.
-/

namespace DomainLang

open Resolved

variable {classifier : ClassifierIndex} {entry : RecordedDeclaration}

/-- The record of a member that is a property. -/
def Resolved.Property.ofMember? (unit : CompilationUnit) (owner : ClassifierIndex)
    (inferred : Option Inference) : Syntax.Member → Option Property
  | .property declaration =>
    some { owner, declaration, context := unit.context declaration.id, inferred }
  | .endSignature _ => none

/-- The record of a member that is an end signature. -/
def Resolved.EndSignature.ofMember? (unit : CompilationUnit) (owner : ClassifierIndex) :
    Syntax.Member → Option EndSignature
  | .property _ => none
  | .endSignature declaration =>
    some { owner, declaration, context := unit.context declaration.id }

namespace Resolved

/-- The record without its members. -/
def Classifier.memberless (classifier : Classifier) : Classifier :=
  { classifier with properties := [], endSignatures := [] }

/-- The record without its members. -/
def Class.memberless (klass : Class) : Class :=
  { klass with toClassifier := klass.toClassifier.memberless }

end Resolved

namespace Program

variable {before after : Program}

/-- Only lists of members of classifiers differ. -/
structure SameClassifiers (before after : Program) : Prop where
  interfaces : after.interfaces.map Classifier.memberless =
    before.interfaces.map Classifier.memberless
  classes : after.classes.map Class.memberless = before.classes.map Class.memberless

namespace SameClassifiers

theorem refl (program : Program) : SameClassifiers program program :=
  ⟨rfl, rfl⟩

theorem trans {middle : Program} (first : SameClassifiers before middle)
    (second : SameClassifiers middle after) : SameClassifiers before after :=
  ⟨second.interfaces.trans first.interfaces, second.classes.trans first.classes⟩

theorem keepsInterfaces (same : SameClassifiers before after) :
    before.interfaces.Keeps Classifier.written after.interfaces :=
  .of_map_eq same.interfaces.symm fun _ => rfl

theorem keepsClasses (same : SameClassifiers before after) :
    before.classes.Keeps Class.written after.classes :=
  .of_map_eq same.classes.symm fun _ => rfl

theorem sizeInterfaces (same : SameClassifiers before after) :
    after.interfaces.size = before.interfaces.size := by
  simpa using congrArg Arena.size same.interfaces

theorem sizeClasses (same : SameClassifiers before after) :
    after.classes.size = before.classes.size := by
  simpa using congrArg Arena.size same.classes

theorem holdsClassifier_iff (same : SameClassifiers before after) :
    after.HoldsClassifier classifier ↔ before.HoldsClassifier classifier := by
  cases classifier with
  | interface index => simp [HoldsClassifier, Arena.Holds, same.sizeInterfaces]
  | klass index => simp [HoldsClassifier, Arena.Holds, same.sizeClasses]

end SameClassifiers

theorem sameClassifiers_modifyClassifier (program : Program) (index : ClassifierIndex)
    (change : Classifier → Classifier)
    (unseen : ∀ classifier, (change classifier).memberless = classifier.memberless) :
    program.SameClassifiers (program.modifyClassifier index change) := by
  cases index with
  | interface index => exact ⟨Arena.map_modify unseen, rfl⟩
  | klass index =>
    refine ⟨rfl, Arena.map_modify fun klass => ?_⟩
    simp only [Class.memberless, unseen]

/-- A classifier with a record has a top-level record. -/
theorem holdsClassifier_of_classifier? {program : Program} {index : TopLevelIndex}
    (isClassifier : index.classifier? = some classifier) (holds : program.HoldsTopLevel index) :
    program.HoldsClassifier classifier := by
  cases index <;> cases isClassifier <;> exact holds

theorem Keeps.holdsClassifier (keeps : before.Keeps after)
    (holds : before.HoldsClassifier classifier) : after.HoldsClassifier classifier := by
  cases classifier with
  | interface index => exact (keeps.interfaces index holds).1
  | klass index => exact (keeps.classes index holds).1

theorem Keeps.classifierHeader_eq (keeps : before.Keeps after)
    (holds : before.HoldsClassifier classifier) :
    (after.classifier classifier).header = (before.classifier classifier).header := by
  cases classifier with
  | interface index =>
    have same := congrArg Classifier.header (keeps.interfaces index holds).2
    exact same
  | klass index =>
    have same := congrArg (·.header) (keeps.classes index holds).2
    exact same

end Program

namespace Workspace

/-- The given properties and end signatures were added to classifiers. -/
structure AddsMembers (keys : List ContextKey) (properties : List Property)
    (signatures : List EndSignature) (before after : Workspace) : Prop
    extends Grows keys before after where
  registry : after.registry = { before.registry with contexts := after.registry.contexts }
  classifiers : before.program.SameClassifiers after.program
  others : after.program = { before.program with
    interfaces := after.program.interfaces
    classes := after.program.classes
    properties := after.program.properties
    endSignatures := after.program.endSignatures }
  properties_eq : after.program.properties.records =
    before.program.properties.records ++ properties
  endSignatures_eq : after.program.endSignatures.records =
    before.program.endSignatures.records ++ signatures
  coherent : before.program.Coherent none none → after.program.Coherent none none

namespace AddsMembers

variable {keys more : List ContextKey} {properties laterProperties : List Property}
  {signatures laterSignatures : List EndSignature} {before middle after : Workspace}

theorem refl (workspace : Workspace) : AddsMembers [] [] [] workspace workspace :=
  ⟨.refl workspace, rfl, .refl _, rfl, by simp, by simp, id⟩

theorem trans (first : AddsMembers keys properties signatures before middle)
    (second : AddsMembers more laterProperties laterSignatures middle after) :
    AddsMembers (keys ++ more) (properties ++ laterProperties) (signatures ++ laterSignatures)
      before after where
  toGrows := first.toGrows.trans second.toGrows
  registry := by
    rw [second.registry, first.registry]
  classifiers := first.classifiers.trans second.classifiers
  others := by
    rw [second.others, first.others]
  properties_eq := by
    rw [second.properties_eq, first.properties_eq, List.append_assoc]
  endSignatures_eq := by
    rw [second.endSignatures_eq, first.endSignatures_eq, List.append_assoc]
  coherent := second.coherent ∘ first.coherent

/-- Units, open scopes and the depth of expansion do not matter. -/
theorem relocate (adds : AddsMembers keys properties signatures before after)
    (units : List CompilationUnit) (walk : Walk) (expansionDepth : Nat) :
    AddsMembers keys properties signatures { before with units, walk, expansionDepth }
      { after with units, walk, expansionDepth } :=
  ⟨adds.toGrows.relocate units walk expansionDepth, adds.registry, adds.classifiers, adds.others,
    adds.properties_eq, adds.endSignatures_eq, adds.coherent⟩

theorem rewalk (adds : AddsMembers keys properties signatures before after) (walk : Walk) :
    AddsMembers keys properties signatures { before with walk } { after with walk } :=
  ⟨adds.toGrows.rewalk walk, adds.registry, adds.classifiers, adds.others, adds.properties_eq,
    adds.endSignatures_eq, adds.coherent⟩

theorem same (adds : AddsMembers keys properties signatures before after) :
    before.program.SameTopLevel after.program := by
  have interfaces := adds.classifiers.sizeInterfaces
  have classes := adds.classifiers.sizeClasses
  have others := adds.others
  constructor
  case interfaces => exact interfaces
  case classes => exact classes
  all_goals rw [others]

theorem names (adds : AddsMembers keys properties signatures before after)
    (names : before.registry.Names before.program) : after.registry.Names after.program := by
  have kept := names.of_keeps adds.keeps adds.same
  rw [adds.registry]
  exact { kept with topLevel := kept.topLevel }

end AddsMembers
end Workspace

/-- The members written in a declaration. -/
def Syntax.Declaration.members (declaration : Syntax.Declaration) : List Syntax.Member :=
  declaration.members?.getD []

/-- The properties written in a declaration that has a record. -/
def writtenProperties (entry : RecordedDeclaration) : List Property :=
  match entry.2.classifier?, entry.1.2.members? with
  | some owner, some members => members.filterMap (Property.ofMember? entry.1.1 owner none)
  | _, _ => []

theorem exists_of_mem_writtenProperties {property : Property}
    (member : property ∈ writtenProperties entry) :
    ∃ owner members declaration, entry.2.classifier? = some owner ∧
      entry.1.2.members? = some members ∧ .property declaration ∈ members ∧
      property = { owner, declaration, context := entry.1.1.context declaration.id
                   inferred := none } := by
  rw [writtenProperties] at member
  split at member
  · next owner members isClassifier written =>
    obtain ⟨declared, among, made⟩ := List.mem_filterMap.mp member
    cases declared with
    | endSignature signature => cases made
    | property declaration =>
      cases made
      exact ⟨owner, members, declaration, isClassifier, written, among, rfl⟩
  · cases member

/-- The end signatures written in a declaration that has a record. -/
def writtenSignatures (entry : RecordedDeclaration) : List EndSignature :=
  match entry.2.classifier?, entry.1.2.members? with
  | some owner, some members => members.filterMap (EndSignature.ofMember? entry.1.1 owner)
  | _, _ => []

theorem exists_of_mem_writtenSignatures {signature : EndSignature}
    (member : signature ∈ writtenSignatures entry) :
    ∃ owner members declaration, entry.2.classifier? = some owner ∧
      entry.1.2.members? = some members ∧ .endSignature declaration ∈ members ∧
      signature = { owner, declaration, context := entry.1.1.context declaration.id } := by
  rw [writtenSignatures] at member
  split at member
  · next owner members isClassifier written =>
    obtain ⟨declared, among, made⟩ := List.mem_filterMap.mp member
    cases declared with
    | property property => cases made
    | endSignature declaration =>
      cases made
      exact ⟨owner, members, declaration, isClassifier, written, among, rfl⟩
  · cases member

/-- The contexts of the members written in a declaration. -/
def memberKeys (declaration : SourceDeclaration) : List ContextKey :=
  declaration.2.members.map fun member => declaration.1.context member.id

namespace Phase

variable {members : List Syntax.Member} {recorded : List RecordedDeclaration}

section Members

variable {unit : CompilationUnit} {owner : ClassifierIndex} {inferred : Option Inference}
  {before after : Workspace}

/-- A member is added to its arena and to the list of its owner, and then registered. -/
theorem addsMembers_modifyClassifier {id : NodeId} {record : RecordIndex}
    {change : Classifier → Classifier} {grow : Program → Program}
    {propertyArena : Arena .property Property}
    {signatureArena : Arena .endSignature EndSignature} {properties : List Property}
    {signatures : List EndSignature}
    (returns : (registerContext (unit.context id) record).Returns (before.modifyProgram grow) ()
      after)
    (grown : grow before.program =
      ({ before.program with
        properties := propertyArena, endSignatures := signatureArena } :
          Program).modifyClassifier owner change)
    (unseen : ∀ classifier, (change classifier).memberless = classifier.memberless)
    (propertyRecords : propertyArena.records = before.program.properties.records ++ properties)
    (signatureRecords :
      signatureArena.records = before.program.endSignatures.records ++ signatures)
    (coherent : before.program.Coherent none none → (grow before.program).Coherent none none) :
    before.AddsMembers [unit.context id] properties signatures after := by
  obtain ⟨declares, program, -⟩ := declares_registerContext returns
  have final : after.program = grow before.program := program
  let added : Program := { before.program with
    properties := propertyArena, endSignatures := signatureArena }
  have classifiers : before.program.SameClassifiers after.program := by
    have same := added.sameClassifiers_modifyClassifier owner change unseen
    rw [final, grown]
    exact ⟨same.interfaces, same.classes⟩
  obtain ⟨interfaces, classes, equal⟩ := added.modifyClassifier_eq owner change
  have closed : after.program = { added with interfaces, classes } :=
    final.trans (grown.trans equal)
  have keeps : before.program.Keeps after.program := by
    have keepsInterfaces := classifiers.keepsInterfaces
    have keepsClasses := classifiers.keepsClasses
    rw [closed] at keepsInterfaces keepsClasses ⊢
    exact { Program.Keeps.refl before.program with
      interfaces := keepsInterfaces
      classes := keepsClasses
      properties := .of_append propertyRecords
      endSignatures := .of_append signatureRecords }
  refine ⟨⟨declares.surroundings, declares.contexts, keeps, declares.nodup⟩, declares.registry,
    classifiers, ?_, ?_, ?_, ?_⟩
  · rw [closed]
  · rw [closed]
    exact propertyRecords
  · rw [closed]
    exact signatureRecords
  · rw [final]
    exact coherent

theorem addsMembers_declareProperty {declaration : Syntax.Property}
    (returns : (declareProperty unit owner inferred declaration).Returns before () after)
    (holds : before.program.HoldsClassifier owner) :
    before.AddsMembers [unit.context declaration.id]
      [{ owner, declaration, context := unit.context declaration.id, inferred }] [] after := by
  simp only [declareProperty, returns_get_bind, returns_modifyProgram_bind] at returns
  apply addsMembers_modifyClassifier returns rfl
  · exact fun _ => rfl
  · rfl
  · simp
  · exact fun coherent => coherent.addProperty holds

theorem addsMembers_declareEndSignature {declaration : Syntax.EndSignature}
    (returns : (declareEndSignature unit owner declaration).Returns before () after)
    (holds : before.program.HoldsClassifier owner) :
    before.AddsMembers [unit.context declaration.id] []
      [{ owner, declaration, context := unit.context declaration.id }] after := by
  simp only [declareEndSignature, returns_get_bind, returns_modifyProgram_bind] at returns
  apply addsMembers_modifyClassifier returns rfl
  · exact fun _ => rfl
  · simp
  · rfl
  · exact fun coherent => coherent.addEndSignature holds

/-- The step that adds a member. -/
def declareMember (unit : CompilationUnit) (owner : ClassifierIndex)
    (inferred : Option Inference) : Syntax.Member → Phase Unit
  | .property declaration => declareProperty unit owner inferred declaration
  | .endSignature declaration => declareEndSignature unit owner declaration

theorem declareMembers_eq (unit : CompilationUnit) (owner : ClassifierIndex)
    (inferred : Option Inference) (members : List Syntax.Member) :
    declareMembers unit owner inferred members =
      members.forM (declareMember unit owner inferred) := by
  unfold declareMembers
  congr 1

theorem addsMembers_declareMember {member : Syntax.Member}
    (returns : (declareMember unit owner inferred member).Returns before () after)
    (holds : before.program.HoldsClassifier owner) :
    before.AddsMembers [unit.context member.id]
      (Property.ofMember? unit owner inferred member).toList
      (EndSignature.ofMember? unit owner member).toList after := by
  cases member with
  | property declaration => exact addsMembers_declareProperty returns holds
  | endSignature declaration => exact addsMembers_declareEndSignature returns holds

/-- Members are added in order. -/
theorem addsMembers_declareMembers
    (returns : (declareMembers unit owner inferred members).Returns before () after)
    (holds : before.program.HoldsClassifier owner) :
    before.AddsMembers (members.map fun member => unit.context member.id)
      (members.filterMap (Property.ofMember? unit owner inferred))
      (members.filterMap (EndSignature.ofMember? unit owner)) after := by
  rw [declareMembers_eq] at returns
  apply returns.forM_induction fun visited current =>
    before.AddsMembers (visited.map fun member => unit.context member.id)
      (visited.filterMap (Property.ofMember? unit owner inferred))
      (visited.filterMap (EndSignature.ofMember? unit owner)) current
  · exact .refl before
  · intro visited member rest current following _ adds step
    have stillHolds := adds.keeps.holdsClassifier holds
    have extended := adds.trans (addsMembers_declareMember step stillHolds)
    cases member <;>
      simpa [List.filterMap_append, List.filterMap_cons, Property.ofMember?,
        EndSignature.ofMember?] using extended

theorem succeeds_declareMember {member : Syntax.Member}
    (fresh : before.registry.Fresh [unit.context member.id]) :
    (declareMember unit owner inferred member).Succeeds before := by
  cases member with
  | property declaration =>
    simp only [declareMember, declareProperty, succeeds_get_bind, succeeds_modifyProgram_bind]
    exact succeeds_registerContext fresh
  | endSignature declaration =>
    simp only [declareMember, declareEndSignature, succeeds_get_bind, succeeds_modifyProgram_bind]
    exact succeeds_registerContext fresh

theorem succeeds_declareMembers (holds : before.program.HoldsClassifier owner)
    (fresh : before.registry.Fresh (members.map fun member => unit.context member.id)) :
    (declareMembers unit owner inferred members).Succeeds before := by
  rw [List.map_eq_flatMap] at fresh
  rw [declareMembers_eq]
  apply (succeeds_mapM (·.program.HoldsClassifier owner) holds fresh ?_ ?_).forM
  · intro member _ current _ new
    exact succeeds_declareMember new
  · intro member _ current _ following stillHolds returns
    have adds := addsMembers_declareMember returns stillHolds
    exact ⟨adds.toGrows, adds.keeps.holdsClassifier stillHolds⟩

end Members

/-- A declaration with members has the record of a classifier. -/
theorem classifier_of_members {program : Program} {header : Header} {element : Syntax.Declaration}
    {index : TopLevelIndex} (describes : program.Describes header element index)
    (written : element.members? = some members) :
    ∃ owner, index.classifier? = some owner ∧ program.HoldsClassifier owner := by
  cases describes with
  | interface holds _ => exact ⟨_, rfl, holds⟩
  | klass holds _ => exact ⟨_, rfl, holds⟩
  | enumeration _ _ | association _ _ _ _ _ _ | projection _ _ | serviceGroup _ _ _ _ =>
    cases written

/-- The classifier of a context that was registered once. -/
theorem returns_registeredClassifier {before after : Workspace} {context : ContextKey}
    {index : TopLevelIndex} {owner : ClassifierIndex} (distinct : before.registry.keys.Nodup)
    (member : (context, .topLevel index) ∈ before.registry.contexts)
    (isClassifier : index.classifier? = some owner) :
    (registeredClassifier context).Returns before classifier after ↔
      classifier = owner ∧ after = before := by
  simp only [registeredClassifier, returns_get_bind, Registry.lookup_of_mem distinct member,
    isClassifier, returns_pure]

/-- What is known while members are declared: they were added to a workspace in which all
top-level declarations have records. -/
structure MembersSoFar (start : Workspace) (recorded visited : List RecordedDeclaration)
    (current : Workspace) : Prop where
  adds : { start with walk := current.walk }.AddsMembers
    ((visited.map Prod.fst).flatMap memberKeys) (visited.flatMap writtenProperties)
    (visited.flatMap writtenSignatures) current
  distinct : current.registry.keys.Nodup
  records : current.registry.Records current.program recorded

namespace MembersSoFar

variable {start current following : Workspace} {recorded visited : List RecordedDeclaration}

theorem rewalk (soFar : MembersSoFar start recorded visited current) (walk : Walk) :
    MembersSoFar start recorded visited { current with walk } :=
  ⟨soFar.adds.rewalk walk, soFar.distinct, soFar.records⟩

/-- More members keep what is known. -/
theorem extend (soFar : MembersSoFar start recorded visited current)
    (adds : current.AddsMembers (memberKeys entry.1) (writtenProperties entry)
      (writtenSignatures entry) following) :
    MembersSoFar start recorded (visited ++ [entry]) following where
  adds := by
    have walk := adds.walk_eq
    rw [walk]
    simpa using soFar.adds.trans adds
  distinct := adds.nodup soFar.distinct
  records := soFar.records.mono adds.keeps adds.same adds.contexts_subset

/-- The members of one declaration. -/
theorem declareElementMembers (soFar : MembersSoFar start recorded visited current)
    (member : entry ∈ recorded)
    (returns : (declareElementMembers entry.1.1 entry.1.2).Returns current () following) :
    MembersSoFar start recorded (visited ++ [entry]) following ∧ following.walk = current.walk := by
  obtain ⟨⟨unit, element⟩, index⟩ := entry
  have adds : current.AddsMembers (memberKeys (unit, element))
      (writtenProperties ((unit, element), index)) (writtenSignatures ((unit, element), index))
      following := by
    cases written : element.members? with
    | none =>
      simp only [Phase.declareElementMembers, written, returns_pure] at returns
      obtain ⟨-, rfl⟩ := returns
      have noMembers : memberKeys (unit, element) = [] ∧
          writtenProperties ((unit, element), index) = [] ∧
          writtenSignatures ((unit, element), index) = [] := by
        cases isClassifier : index.classifier? <;>
          simp [memberKeys, Syntax.Declaration.members, writtenProperties, writtenSignatures,
            written, isClassifier]
      rw [noMembers.1, noMembers.2.1, noMembers.2.2]
      exact .refl following
    | some members =>
      obtain ⟨ordinal, describes⟩ := soFar.records.describes_mem member
      obtain ⟨owner, isClassifier, holds⟩ := classifier_of_members describes written
      have context := soFar.records.contexts _ member
      simp only [Phase.declareElementMembers, written, returns_bind,
        returns_registeredClassifier soFar.distinct context isClassifier] at returns
      obtain ⟨_, _, ⟨sameOwner, unchanged⟩, framed⟩ := returns
      rw [sameOwner, unchanged] at framed
      obtain ⟨inner, run, rfl⟩ := framed.inFrame fun inner run =>
        (addsMembers_declareMembers run holds).walk_eq
      have inside := (addsMembers_declareMembers run holds).rewalk current.walk
      simpa [memberKeys, Syntax.Declaration.members, writtenProperties, writtenSignatures, written,
        isClassifier] using inside
  exact ⟨soFar.extend adds, adds.walk_eq⟩

/-- The members of one declaration can be declared when their contexts are fresh. -/
theorem succeeds_declareElementMembers (soFar : MembersSoFar start recorded visited current)
    (member : entry ∈ recorded) (fresh : current.registry.Fresh (memberKeys entry.1))
    (walk : current.walk = ⟨[.unit entry.1.1.id]⟩) :
    (Phase.declareElementMembers entry.1.1 entry.1.2).Succeeds current := by
  obtain ⟨⟨unit, element⟩, index⟩ := entry
  cases written : element.members? with
  | none =>
    simp only [Phase.declareElementMembers, written]
    exact succeeds_pure ..
  | some members =>
    obtain ⟨ordinal, describes⟩ := soFar.records.describes_mem member
    obtain ⟨owner, isClassifier, holds⟩ := classifier_of_members describes written
    have context := soFar.records.contexts _ member
    have registered {classifier : ClassifierIndex} {after : Workspace} :
        (registeredClassifier (unit.context element.node.id)).Returns current classifier after ↔
          classifier = owner ∧ after = current :=
      returns_registeredClassifier soFar.distinct context isClassifier
    simp only [memberKeys, Syntax.Declaration.members, written, Option.getD_some] at fresh
    simp only [Phase.declareElementMembers, written]
    refine .bind ⟨_, _, registered.mpr ⟨rfl, rfl⟩⟩ fun classifier after returns => ?_
    obtain ⟨rfl, rfl⟩ := registered.mp returns
    apply succeeds_inFrame
    · simp [walk, Frame.kind]
    · exact succeeds_declareMembers holds fresh
    · intro _ inner run
      exact (addsMembers_declareMembers run holds).walk_eq

end MembersSoFar

/-- The members of one declaration after the other. -/
theorem visitInvariant_declareElementMembers (start : Workspace) {units : List CompilationUnit}
    (all : recorded.map Prod.fst = declarationsOf units) :
    VisitInvariant declareElementMembers units fun visited current =>
      ∃ done rest, recorded = done ++ rest ∧ done.map Prod.fst = visited ∧
        MembersSoFar start recorded done current where
  rewalk _ _ walk := by
    rintro ⟨done, rest, split, visited, soFar⟩
    exact ⟨done, rest, split, visited, soFar.rewalk walk⟩
  next _ unit element rest current following remaining := by
    rintro ⟨done, later, split, rfl, soFar⟩ returns
    rw [← all, split, List.map_append, List.append_cancel_left_eq,
      List.map_eq_cons_iff] at remaining
    obtain ⟨⟨_, index⟩, others, rfl, rfl, -⟩ := remaining
    have member : ((unit, element), index) ∈ recorded := by simp [split]
    obtain ⟨extended, walk⟩ := soFar.declareElementMembers member returns
    exact ⟨⟨done ++ [((unit, element), index)], others, by simp [split], by simp, extended⟩, walk⟩

/-- Once all top-level declarations have records, all members get theirs. -/
theorem returns_declareClassifierMembers {before after : Workspace}
    (all : recorded.map Prod.fst = declarationsOf before.units)
    (distinct : before.registry.keys.Nodup)
    (records : before.registry.Records before.program recorded)
    (returns : declareClassifierMembers.Returns before () after) :
    before.AddsMembers ((declarationsOf before.units).flatMap memberKeys)
        (recorded.flatMap writtenProperties) (recorded.flatMap writtenSignatures) after ∧
      after.registry.keys.Nodup ∧ after.registry.Records after.program recorded := by
  have start : MembersSoFar before recorded [] before := ⟨.refl before, distinct, records⟩
  obtain ⟨⟨done, rest, split, visited, soFar⟩, walk⟩ :=
    (visitInvariant_declareElementMembers before all).eachDeclaration
      ⟨[], recorded, rfl, rfl, start⟩ returns
  have finished : done = recorded := by
    have lengths := congrArg List.length visited
    rw [← all, List.length_map, List.length_map, split, List.length_append] at lengths
    have nothing : rest = [] := List.eq_nil_of_length_eq_zero (by omega)
    rw [split, nothing, List.append_nil]
  subst finished
  refine ⟨?_, soFar.distinct, soFar.records⟩
  have adds := soFar.adds
  rw [walk, all] at adds
  exact adds

/-- All members get records when their contexts are fresh. -/
theorem succeeds_declareClassifierMembers {before : Workspace}
    (all : recorded.map Prod.fst = declarationsOf before.units)
    (distinct : before.registry.keys.Nodup)
    (records : before.registry.Records before.program recorded) (closed : before.walk = {})
    (fresh : before.registry.Fresh ((declarationsOf before.units).flatMap memberKeys)) :
    declareClassifierMembers.Succeeds before := by
  have start : MembersSoFar before recorded [] before := ⟨.refl before, distinct, records⟩
  apply (visitInvariant_declareElementMembers before all).succeeds_eachDeclaration
    ⟨[], recorded, rfl, rfl, start⟩ closed
  rintro _ unit element rest current split ⟨done, later, parts, rfl, soFar⟩ walk
  rw [split, List.flatMap_append, List.flatMap_cons] at fresh
  have remaining := split
  rw [← all, parts, List.map_append, List.append_cancel_left_eq, List.map_eq_cons_iff] at remaining
  obtain ⟨⟨_, index⟩, others, rfl, rfl, -⟩ := remaining
  have member : ((unit, element), index) ∈ recorded := by simp [parts]
  have started : ({ before with walk := current.walk } : Workspace).registry.Fresh
      ((done.map Prod.fst).flatMap memberKeys ++ (memberKeys (unit, element) ++
        rest.flatMap memberKeys)) := fresh
  exact soFar.succeeds_declareElementMembers member (started.right soFar.adds.toGrows).left walk

end Phase
end DomainLang
