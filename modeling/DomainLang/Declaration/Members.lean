import DomainLang.Program.Workspace

/-!
# Declaring members and clauses

Members of a classifier and clauses of a service are declared in the same way
whether they are written in a source file or added by an inference.
-/

namespace DomainLang.Phase

def modifyProgram (change : Program → Program) : Phase Unit :=
  modify (·.modifyProgram change)

def registerContext (context : ContextKey) (record : RecordIndex) : Phase Unit :=
  updateRegistry (·.registerContext context record)

/-- Add a property to a classifier. -/
def declareProperty (unit : CompilationUnit) (owner : ClassifierIndex)
    (inferred : Option Inference) (declaration : Syntax.Property) : Phase Unit := do
  let index := (← get).program.properties.next
  let context := unit.context declaration.id
  modifyProgram fun program =>
    let added := { program with
      properties := program.properties.push { owner, declaration, context, inferred } }
    added.modifyClassifier owner fun classifier =>
      { classifier with properties := classifier.properties ++ [index] }
  registerContext context (.property index)

/-- Add an end signature to a classifier. -/
def declareEndSignature (unit : CompilationUnit) (owner : ClassifierIndex)
    (declaration : Syntax.EndSignature) : Phase Unit := do
  let index := (← get).program.endSignatures.next
  let context := unit.context declaration.id
  modifyProgram fun program =>
    let added := { program with
      endSignatures := program.endSignatures.push { owner, declaration, context } }
    added.modifyClassifier owner fun classifier =>
      { classifier with endSignatures := classifier.endSignatures ++ [index] }
  registerContext context (.endSignature index)

/-- Add members to a classifier in order. -/
def declareMembers (unit : CompilationUnit) (owner : ClassifierIndex)
    (inferred : Option Inference) (members : List Syntax.Member) : Phase Unit :=
  members.forM fun
    | .property declaration => declareProperty unit owner inferred declaration
    | .endSignature declaration => declareEndSignature unit owner declaration

/-- Add clauses to a service in order. -/
def declareClauses (unit : UnitId) (service : ServiceIndex) (inferred : Option Inference)
    (clauses : List Syntax.Clause) : Phase Unit :=
  modifyProgram fun program =>
    { program with
      services := program.services.modify service fun record =>
        { record with
          clauses := record.clauses ++
            clauses.map fun declaration => { declaration, unit, inferred } } }

/-- Merge a fragment into the declaration that it was made for. -/
def mergeFragment (unit : CompilationUnit) (inference : Inference) : Phase Unit :=
  match unit.body with
  | .tree _ => pure ()
  | .members owner members =>
    inFrame (.classifier owner) (declareMembers unit owner (some inference) members)
  | .clauses service clauses =>
    inFrame (.service service) (declareClauses unit.id service (some inference) clauses)

/-- Expand a declaration by a fragment of its own. -/
def expandDeclaration (inference : Inference) (anchor : ContextKey) (span : Span)
    (body : UnitBody) : Phase Unit := do
  let workspace ← get
  match workspace.unit? anchor.unit with
  | none => throw (.unknownContext anchor)
  | some parent =>
    let unit := CompilationUnit.ofExpansion workspace.nextUnit parent inference anchor span body
    let _ ← expand unit (mergeFragment unit inference)

end DomainLang.Phase
