import DomainLang.Proofs.Compilation
import DomainLang.Proofs.Index.Records

/-!
# The index of contexts

While records are made, some of them are still to be registered: `Workspace.Indexed` says that
these and what the registry has are together exactly the records with their contexts. A step
that makes a record adds it to those awaited, and registering takes it away again, so nothing is
awaited between steps, and the registry leads from contexts to records and back.
-/

namespace DomainLang

open Resolved

/-- The registry and the records that are still to be registered are together all records
with their contexts. -/
def Workspace.Indexed (workspace : Workspace) (awaited : List (ContextKey × RecordIndex)) : Prop :=
  workspace.program.IndexedBy (awaited ++ workspace.registry.contexts)

namespace Workspace.Indexed

variable {workspace : Workspace} {awaited : List (ContextKey × RecordIndex)}

/-- Records that are made are awaited. -/
theorem modifyProgram (indexed : workspace.Indexed awaited)
    (new : List (ContextKey × RecordIndex)) {change : Program → Program}
    (grows : workspace.program.Extends (change workspace.program) new) :
    (workspace.modifyProgram change).Indexed (new ++ awaited) := by
  have extended := indexed.extend grows
  rw [← List.append_assoc] at extended
  exact extended

/-- A record that is registered is no longer awaited. -/
theorem register {entry : ContextKey × RecordIndex} {registry : Registry}
    (indexed : workspace.Indexed (entry :: awaited))
    (registered : registry.contexts = entry :: workspace.registry.contexts) :
    ({ workspace with registry } : Workspace).Indexed awaited := by
  intro context record
  have known := indexed context record
  rw [← known, registered]
  simp only [List.mem_append, List.mem_cons]
  tauto

end Workspace.Indexed

namespace Phase

variable {α β : Type}

/-- The step registers all records that it makes. -/
def KeepsIndex (phase : Phase α) : Prop :=
  ∀ awaited before result after, phase.Returns before result after →
    before.Indexed awaited → after.Indexed awaited

/-- The step makes one more record than it registers. -/
def LeavesRecord (context : ContextKey) (phase : Phase TopLevelIndex) : Prop :=
  ∀ awaited before index after, phase.Returns before index after →
    before.Indexed awaited → after.Indexed ((context, .topLevel index) :: awaited)

namespace KeepsIndex

theorem pure (value : α) : (Pure.pure value : Phase α).KeepsIndex := by
  intro awaited before result after returns indexed
  rw [(returns_pure.mp returns).2]
  exact indexed

theorem bind {first : Phase α} {next : α → Phase β} (one : first.KeepsIndex)
    (others : ∀ value, (next value).KeepsIndex) : (first >>= next).KeepsIndex := by
  intro awaited before result after returns indexed
  obtain ⟨value, between, started, rest⟩ := returns_bind.mp returns
  exact others value awaited between result after rest
    (one awaited before value between started indexed)

theorem get_bind {next : Workspace → Phase β} (each : ∀ workspace, (next workspace).KeepsIndex) :
    (get >>= next).KeepsIndex := by
  intro awaited before result after returns indexed
  exact each before awaited before result after (returns_get_bind.mp returns) indexed

theorem throw (fault : Fault) : (MonadExcept.throw fault : Phase α).KeepsIndex := by
  intro awaited before result after returns indexed
  exact (returns_throw.mp returns).elim

/-- A change of the program that makes no record. -/
theorem modifyProgram {change : Program → Program}
    (grows : ∀ program : Program, program.Extends (change program) []) :
    (Phase.modifyProgram change).KeepsIndex := by
  intro awaited before result after returns indexed
  rw [returns_modifyProgram.mp returns]
  exact indexed.modifyProgram [] (grows before.program)

theorem mapM {items : List α} {step : α → Phase β} (each : ∀ item, (step item).KeepsIndex) :
    (items.mapM step).KeepsIndex := by
  intro awaited before results after returns indexed
  apply returns.mapM_induction fun _ _ current => current.Indexed awaited
  · exact indexed
  · intro visited values item rest value current following split soFar stepped
    exact each item awaited current value following stepped soFar

theorem forM {items : List α} {step : α → Phase Unit} (each : ∀ item, (step item).KeepsIndex) :
    (items.forM step).KeepsIndex := by
  intro awaited before _ after returns indexed
  apply returns.forM_induction fun _ current => current.Indexed awaited
  · exact indexed
  · intro visited item rest current following split soFar stepped
    exact each item awaited current () following stepped soFar

/-- Open scopes do not matter. -/
theorem inFrame {frame : Frame} {body : Phase α} (keeps : body.KeepsIndex) :
    (inFrame frame body).KeepsIndex := by
  intro awaited before result after returns indexed
  obtain ⟨opened, inner, closed, -, inside, -, rfl⟩ := returns_inFrame.mp returns
  exact keeps awaited { before with walk := opened } result inner inside indexed

/-- Neither does the depth of an expansion, nor the unit that it adds. -/
theorem expand {unit : CompilationUnit} {merge : Phase Unit} (keeps : merge.KeepsIndex) :
    (expand unit merge).KeepsIndex := by
  intro awaited before result after returns indexed
  obtain ⟨-, -, inner, merged, rfl⟩ := returns_expand.mp returns
  exact keeps.inFrame awaited { before with walk := {}, expansionDepth := _ } () inner merged
    indexed

theorem optionally {isWanted : Options → Bool} {phase : Phase Unit} (keeps : phase.KeepsIndex) :
    (optionally isWanted phase).KeepsIndex := by
  apply get_bind
  intro workspace
  split
  · exact keeps
  · exact pure ()

theorem eachDeclaration {visit : CompilationUnit → Syntax.Declaration → Phase Unit}
    (each : ∀ unit element, (visit unit element).KeepsIndex) :
    (eachDeclaration visit).KeepsIndex := by
  rw [eachDeclaration_eq]
  apply get_bind
  intro workspace
  apply forM
  intro unit
  exact inFrame (forM (each unit))

end KeepsIndex

/-- A record that takes the next index is left. -/
theorem LeavesRecord.add {context : ContextKey} {change : Program → Program}
    (next : Program → TopLevelIndex) (grows : ∀ program : Program,
      program.Extends (change program) [(context, .topLevel (next program))]) :
    LeavesRecord context do
      let program := (← get).program
      modifyProgram change
      return next program := by
  intro awaited before index after returns indexed
  simp only [returns_get_bind, returns_modifyProgram_bind, returns_pure] at returns
  obtain ⟨rfl, rfl⟩ := returns
  exact indexed.modifyProgram [_] (grows before.program)

section Steps

variable {unit : CompilationUnit} {before after : Workspace}
  {awaited : List (ContextKey × RecordIndex)}

/-- A record that is made and then registered. -/
theorem indexed_registerContext {context : ContextKey} {record : RecordIndex}
    (indexed : before.Indexed ((context, record) :: awaited))
    (registers : (registerContext context record).Returns before () after) :
    after.Indexed awaited := by
  obtain ⟨-, rfl⟩ := returns_registerContext.mp registers
  exact indexed.register rfl

theorem keepsIndex_declareParameter (url : UrlIndex) (declaration : Syntax.Parameter) :
    (declareParameter unit url declaration).KeepsIndex := by
  intro awaited before index after returns indexed
  simp only [declareParameter, returns_get_bind, returns_modifyProgram_bind] at returns
  simp only [returns_bind, returns_pure] at returns
  obtain ⟨_, _, registers, -, rfl⟩ := returns
  exact indexed_registerContext (indexed.modifyProgram [_] (.addParameter _)) registers

theorem keepsIndex_declareSegment (url : UrlIndex) (segment : Syntax.UrlSegment) :
    (declareSegment unit url segment).KeepsIndex := by
  cases segment with
  | constant name => exact .pure _
  | parameter declaration =>
    exact (keepsIndex_declareParameter url declaration).bind fun index => .pure _

theorem keepsIndex_declareClauses (id : UnitId) (service : ServiceIndex)
    (inferred : Option Inference) (clauses : List Syntax.Clause) :
    (declareClauses id service inferred clauses).KeepsIndex :=
  .modifyProgram fun _ => .modifyService service fun _ => rfl

theorem keepsIndex_declareService (url : UrlIndex) (declaration : Syntax.Service) :
    (declareService unit url declaration).KeepsIndex := by
  intro awaited before index after returns indexed
  simp only [declareService, returns_get_bind, returns_modifyProgram_bind] at returns
  obtain ⟨_, registered, registers, rest⟩ := returns_bind.mp returns
  have noneAwaited := indexed_registerContext (indexed.modifyProgram [_] (.addService _)) registers
  exact (keepsIndex_declareClauses _ _ _ _).bind (fun _ => .pure _) awaited registered index after
    rest noneAwaited

theorem keepsIndex_declareUrl (group : ServiceGroupIndex) (declaration : Syntax.Url) :
    (declareUrl unit group declaration).KeepsIndex := by
  intro awaited before index after returns indexed
  simp only [declareUrl, returns_get_bind, returns_modifyProgram_bind] at returns
  obtain ⟨_, registered, registers, rest⟩ := returns_bind.mp returns
  have noneAwaited := indexed_registerContext (indexed.modifyProgram [_] (.addUrl _)) registers
  refine KeepsIndex.bind (.mapM (keepsIndex_declareSegment _)) (fun path => ?_) awaited registered
    index after rest noneAwaited
  refine .bind (.mapM (keepsIndex_declareParameter _)) fun queryParameters => ?_
  refine .bind (.mapM (keepsIndex_declareService _)) fun services => ?_
  exact .bind (.modifyProgram fun _ => .modifyUrl _ fun _ => rfl) fun _ => .pure _

/-- A group waits for its registration while its urls are declared. -/
theorem leavesRecord_declareServiceGroup (header : Header) (declaration : Syntax.ServiceGroup) :
    (declareServiceGroup unit header declaration).LeavesRecord header.context := by
  intro awaited before index after returns indexed
  simp only [declareServiceGroup, returns_get_bind, returns_modifyProgram_bind] at returns
  obtain ⟨urls, declared, urlsDeclared, rest⟩ := returns_bind.mp returns
  have groupAwaited := KeepsIndex.mapM (keepsIndex_declareUrl _) _ _ urls declared urlsDeclared
    (indexed.modifyProgram [_] (.addServiceGroup _))
  rw [returns_modifyProgram_bind, returns_pure] at rest
  obtain ⟨rfl, rfl⟩ := rest
  exact groupAwaited.modifyProgram [] (.modifyServiceGroup _ fun _ => rfl)

/-- The ends of an association are registered before it is made. -/
theorem leavesRecord_declareAssociation (header : Header) (declaration : Syntax.Association) :
    (declareAssociation unit header declaration).LeavesRecord header.context := by
  intro awaited before index after returns indexed
  simp only [declareAssociation, returns_get_bind, returns_modifyProgram_bind] at returns
  obtain ⟨_, sourceRegistered, registersSource, rest⟩ := returns_bind.mp returns
  obtain ⟨_, targetRegistered, registersTarget, rest⟩ := returns_bind.mp rest
  rw [returns_modifyProgram_bind, returns_pure] at rest
  obtain ⟨rfl, rfl⟩ := rest
  have targetAwaited := indexed_registerContext (indexed.modifyProgram [_, _] (.addEnds _ _))
    registersSource
  have noneAwaited := indexed_registerContext targetAwaited registersTarget
  have sameNext : before.program.associations.next =
      targetRegistered.program.associations.next := by
    rw [(returns_registerContext.mp registersTarget).2,
      (returns_registerContext.mp registersSource).2]
    rfl
  rw [sameNext]
  exact noneAwaited.modifyProgram [_] (.addAssociation _)

theorem leavesRecord_declareRecord (header : Header) (element : Syntax.Declaration) :
    (declareRecord unit header element).LeavesRecord header.context := by
  cases element with
  | association declaration => exact leavesRecord_declareAssociation header declaration
  | serviceGroup declaration => exact leavesRecord_declareServiceGroup header declaration
  | enumeration declaration =>
    exact .add (fun program => .enumeration program.enumerations.next) fun _ => .addEnumeration _
  | interface declaration =>
    exact .add (fun program => .interface program.interfaces.next) fun _ => .addInterface _
  | klass declaration =>
    exact .add (fun program => .klass program.classes.next) fun _ => .addClass _
  | projection declaration =>
    exact .add (fun program => .projection program.projections.next) fun _ => .addProjection _

theorem keepsIndex_declareElement (unit : CompilationUnit) (element : Syntax.Declaration) :
    (declareElement unit element).KeepsIndex := by
  intro awaited before _ after returns indexed
  simp only [declareElement_eq, returns_bind] at returns
  obtain ⟨ordinal, numbered, draws, index, declared, recorded, registers⟩ := returns
  obtain ⟨-, rfl⟩ := returns_drawOrdinal.mp draws
  have leaves := leavesRecord_declareRecord _ element awaited _ index declared recorded indexed
  obtain ⟨-, rfl⟩ := returns_register.mp registers
  exact leaves.register (contexts_registerName ..)

theorem keepsIndex_declareMember (owner : ClassifierIndex) (inferred : Option Inference)
    (member : Syntax.Member) : (declareMember unit owner inferred member).KeepsIndex := by
  intro awaited before _ after returns indexed
  cases member with
  | property declaration =>
    simp only [declareMember, declareProperty, returns_get_bind, returns_modifyProgram_bind]
      at returns
    refine indexed_registerContext ?_ returns
    exact indexed.modifyProgram [_]
      (.trans (.addProperty _) (.modifyClassifier owner fun _ => by rfl))
  | endSignature declaration =>
    simp only [declareMember, declareEndSignature, returns_get_bind, returns_modifyProgram_bind]
      at returns
    refine indexed_registerContext ?_ returns
    exact indexed.modifyProgram [_]
      (.trans (.addEndSignature _) (.modifyClassifier owner fun _ => by rfl))

theorem keepsIndex_declareMembers (owner : ClassifierIndex) (inferred : Option Inference)
    (members : List Syntax.Member) : (declareMembers unit owner inferred members).KeepsIndex := by
  rw [declareMembers_eq]
  exact .forM (keepsIndex_declareMember owner inferred)

theorem keepsIndex_registeredClassifier (context : ContextKey) :
    (registeredClassifier context).KeepsIndex := by
  apply KeepsIndex.get_bind
  intro workspace
  split
  · exact .throw _
  · split
    · exact .pure _
    · exact .throw _
  · exact .throw _

theorem keepsIndex_declareElementMembers (unit : CompilationUnit)
    (element : Syntax.Declaration) : (declareElementMembers unit element).KeepsIndex := by
  unfold declareElementMembers
  split
  · exact .pure ()
  · exact (keepsIndex_registeredClassifier _).bind fun owner =>
      .inFrame (keepsIndex_declareMembers owner none _)

theorem keepsIndex_mergeFragment (fragment : CompilationUnit) (inference : Inference) :
    (mergeFragment fragment inference).KeepsIndex := by
  unfold mergeFragment
  split
  · exact .pure ()
  · exact .inFrame (keepsIndex_declareMembers _ _ _)
  · exact .inFrame (keepsIndex_declareClauses _ _ _ _)

theorem keepsIndex_expandDeclaration (inference : Inference) (anchor : ContextKey) (span : Span)
    (body : UnitBody) : (expandDeclaration inference anchor span body).KeepsIndex := by
  apply KeepsIndex.get_bind
  intro workspace
  split
  · exact .throw _
  · exact .bind (.expand (keepsIndex_mergeFragment _ _)) fun _ => .pure ()

/-- Both inferences look at one record after another and expand some of them. -/
theorem keepsIndex_inferences :
    inferTemporalProperties.KeepsIndex ∧ inferServiceCriteria.KeepsIndex := by
  constructor
  all_goals
    apply KeepsIndex.get_bind
    intro workspace
    apply KeepsIndex.forM
    intro record
    apply KeepsIndex.get_bind
    intro current
    dsimp only
    split
    · exact .pure ()
    · exact keepsIndex_expandDeclaration _ _ _ _

/-- Lookups of names make no records. -/
theorem keepsIndex_modify_of_unlinked_eq {change : Workspace → Workspace}
    (registry : ∀ workspace, (change workspace).registry = workspace.registry)
    (unlinked : ∀ workspace,
      workspace.program.unlinked = (change workspace).program.unlinked) :
    (modify change : Phase Unit).KeepsIndex := by
  intro awaited before _ after returns indexed
  rw [returns_modify.mp returns, Workspace.Indexed, registry]
  exact indexed.extend (.of_unlinked_eq (unlinked before))

theorem keepsIndex_analyze : analyze.KeepsIndex := by
  refine .bind (.eachDeclaration keepsIndex_declareElement) fun _ => ?_
  refine .bind (.eachDeclaration keepsIndex_declareElementMembers) fun _ => ?_
  refine .bind (keepsIndex_modify_of_unlinked_eq (fun _ => rfl) fun workspace => ?_) fun _ => ?_
  · change _ = ((workspace.program.linkHierarchy _).linkAssociations _).unlinked
    rw [Program.unlinked_linkAssociations, Program.unlinked_linkHierarchy]
  refine .bind (.optionally keepsIndex_inferences.1) fun _ => ?_
  refine .bind (.optionally keepsIndex_inferences.2) fun _ => ?_
  refine .bind (keepsIndex_modify_of_unlinked_eq Workspace.registry_linkReferences
    fun workspace => ?_) fun _ => ?_
  · exact (workspace.program.unlinked_linkReferences workspace.registry).symm
  · exact keepsIndex_modify_of_unlinked_eq (fun _ => rfl) fun _ => rfl

/-- An analysis closes every scope that it opens. -/
theorem walk_analyze {options : Options} {units : List CompilationUnit}
    (returns : analyze.Returns { options, units } () after) : after.walk = {} := by
  obtain ⟨declared, withMembers, withProperties, withClauses, declares, members, temporal,
    criteria, rfl⟩ := returns_analyze_iff.mp returns
  obtain ⟨-, -, grows⟩ := linked_linkDeclarations declares members
  obtain ⟨fragments, infers⟩ := returns_optionally_inferTemporalProperties temporal
  have adds := returns_optionally_inferServiceCriteria criteria
  calc withClauses.walk = withProperties.walk := by rw [adds.surroundings]
    _ = withMembers.walk := by rw [infers.adds.surroundings]; rfl
    _ = {} := grows.walk_eq

end Steps

end Phase

/-- An inferred property stands in a fragment that expands its owner. -/
theorem Workspace.Linked.exists_fragment_of_inferred {workspace : Workspace}
    {units fragments : List CompilationUnit} {recorded : List RecordedDeclaration}
    (linked : workspace.Linked units recorded fragments) {index : PropertyIndex}
    (holds : workspace.program.properties.Holds index)
    (inferred : (workspace.program.properties.get index).inferred.isSome) :
    ∃ fragment ∈ fragments, fragment.id = (workspace.program.properties.get index).context.unit ∧
      ∃ members, fragment.body =
        .members (workspace.program.properties.get index).owner members := by
  rcases linked.property_origin holds with
    ⟨written, -⟩ | ⟨fragment, member, named, members, body, -⟩
  · rw [written] at inferred
    cases inferred
  · exact ⟨fragment, member, named, members, body⟩

/-- Every context leads to the one record that stands for its node, and every record is reached
by its context. -/
structure Workspace.ExactlyIndexed (workspace : Workspace) : Prop where
  distinctUnits : (workspace.units.map (·.id)).Nodup
  closed : workspace.walk = {}
  /-- The context of a record leads to that record. -/
  found : ∀ record, workspace.program.HoldsRecord record →
    workspace.registry.lookup (workspace.program.contextOf record) = .ok record
  /-- A context that leads to a record is that of the record. -/
  known : ∀ context record, workspace.registry.lookup context = .ok record →
    workspace.program.HoldsRecord record ∧ workspace.program.contextOf record = context
  /-- No two records, of whatever kinds, share a context. -/
  injective : ∀ first second, workspace.program.HoldsRecord first →
    workspace.program.HoldsRecord second →
    workspace.program.contextOf first = workspace.program.contextOf second → first = second
  /-- An inferred property stands in a fragment that was made for its owner. -/
  inferred : ∀ index, workspace.program.properties.Holds index →
    (workspace.program.properties.get index).inferred.isSome →
    ∃ fragment ∈ workspace.units,
      fragment.id = (workspace.program.properties.get index).context.unit ∧
      fragment.expansion = some {
        parent := (workspace.program.classifier
          (workspace.program.properties.get index).owner).header.context.unit
        inference := .temporalProperties
        anchor := (workspace.program.classifier
          (workspace.program.properties.get index).owner).header.context } ∧
      ∃ members, fragment.body =
        .members (workspace.program.properties.get index).owner members

namespace Workspace.Indexed

variable {workspace : Workspace} (indexed : workspace.Indexed [])
  (distinct : workspace.registry.keys.Nodup)

include indexed distinct

theorem lookup_contextOf {record : RecordIndex} (holds : workspace.program.HoldsRecord record) :
    workspace.registry.lookup (workspace.program.contextOf record) = .ok record :=
  Registry.lookup_of_mem distinct ((indexed _ record).mpr ⟨holds, rfl⟩)

omit distinct in
theorem contextOf_of_lookup {context : ContextKey} {record : RecordIndex}
    (found : workspace.registry.lookup context = .ok record) :
    workspace.program.HoldsRecord record ∧ workspace.program.contextOf record = context := by
  rw [Registry.lookup] at found
  split at found
  · next registered =>
    cases found
    obtain ⟨earlier, later, split, -⟩ := List.lookup_eq_some_iff.mp registered
    exact (indexed context record).mp (by simp [split])
  · cases found

theorem contextOf_injective {first second : RecordIndex}
    (holdsFirst : workspace.program.HoldsRecord first)
    (holdsSecond : workspace.program.HoldsRecord second)
    (same : workspace.program.contextOf first = workspace.program.contextOf second) :
    first = second := by
  have one := indexed.lookup_contextOf distinct holdsFirst
  rw [same, indexed.lookup_contextOf distinct holdsSecond] at one
  exact (Except.ok.inj one).symm

end Workspace.Indexed

/-- After every analysis of files with ids of their own, all units have ids of their own, no scope
is open, and the index of contexts is exact. -/
theorem analyze_exactlyIndexed {options : Options}
    {sources : List (UnitId × String × Syntax.SourceTree)} {after : Workspace}
    (distinct : (sources.map Prod.fst).Nodup)
    (analysed : Phase.analyze.perform
      { options, units := sources.map fun source => .ofTree source.1 source.2.1 source.2.2 } =
        (.ok (), after)) : after.ExactlyIndexed := by
  have closed := Phase.walk_analyze analysed
  have indexed := Phase.keepsIndex_analyze [] _ () after analysed Program.indexedBy_nil
  obtain ⟨workspace, recorded, fragments, known, rfl⟩ := Phase.returns_analyze analysed
  exact
    { distinctUnits := known.distinctUnits (by
        simpa [CompilationUnit.ofTree, Function.comp_def] using distinct)
      closed
      found := fun _ => indexed.lookup_contextOf known.distinct
      known := fun _ _ => indexed.contextOf_of_lookup
      injective := fun _ _ => indexed.contextOf_injective known.distinct
      inferred := by
        intro index holds inferred
        obtain ⟨fragment, member, named, members, body⟩ :=
          known.exists_fragment_of_inferred holds inferred
        obtain ⟨owner, _, ofOwner, -, expansion, -⟩ := known.expands fragment member
        obtain ⟨more, units, -⟩ := known.units_eq
        have sameOwner : owner = (workspace.program.properties.get index).owner := by
          rw [body] at ofOwner
          exact (UnitBody.members.inj ofOwner).1.symm
        subst sameOwner
        refine ⟨fragment, ?_, named, expansion, members, body⟩
        change fragment ∈ workspace.units
        simp [units, member] }

namespace Sample

open Syntax in
/-- Contracts are valid for a time and have a number by the name of a property that is inferred. -/
def contracts : SourceTree where
  package := ⟨.bare, "com.example"⟩
  elements := [klass "Contract" none [.validTemporal] [number "valid" true []]]

open Syntax in
/-- Payments are kept with the time of their recording. -/
def payments : SourceTree where
  package := ⟨.bare, "com.example"⟩
  elements := [klass "Payment" none [.systemTemporal] [number "amount" false []]]

end Sample

/-- The properties that are inferred for the classes of two files stand in a fragment for each of
the classes. -/
theorem analyze_exactlyIndexed_contracts :
    ∃ after, Phase.analyze.perform { options := {}, units :=
        [.ofTree ⟨7⟩ "contracts" Sample.contracts, .ofTree ⟨3⟩ "payments" Sample.payments] } =
          (.ok (), after) ∧
      after.program.properties.records.map (fun property =>
        (property.inferred.isSome, property.context.unit.value)) =
        [(false, 7), (false, 3), (true, 8), (true, 8), (true, 8), (true, 9), (true, 9),
          (true, 9)] ∧
      after.ExactlyIndexed := by
  have properties : (Phase.analyze.perform { options := {}, units :=
      [.ofTree ⟨7⟩ "contracts" Sample.contracts, .ofTree ⟨3⟩ "payments" Sample.payments] }).map
        Except.toOption (fun after => after.program.properties.records.map fun property =>
          (property.inferred.isSome, property.context.unit.value)) =
      (some (), [(false, 7), (false, 3), (true, 8), (true, 8), (true, 8), (true, 9), (true, 9),
        (true, 9)]) := by cbv
  obtain ⟨after, performed, properties⟩ := Phase.exists_returns_of_map_eq properties
  have distinct : (([(⟨7⟩, "contracts", Sample.contracts), (⟨3⟩, "payments", Sample.payments)] :
      List (UnitId × String × Syntax.SourceTree)).map Prod.fst).Nodup := by
    rw [List.map_cons, List.map_singleton]
    decide
  exact ⟨after, performed, properties, analyze_exactlyIndexed distinct performed⟩

end DomainLang
