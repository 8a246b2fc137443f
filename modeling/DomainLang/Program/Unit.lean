import DomainLang.Program.Index
import DomainLang.Syntax.Numbering

/-!
# Compilation units

A unit is what a walk over declarations covers: the tree of a source file, or a
fragment that an inference added to a declaration of another unit. Nodes are
numbered within their unit, so a unit and a node name one declaration.
-/

namespace DomainLang

/-- The inferences that add declarations. -/
inductive Inference where
  | temporalProperties
  | serviceCriteria
  deriving DecidableEq, Repr, Inhabited

def Inference.name : Inference → String
  | temporalProperties => "temporal property inference"
  | serviceCriteria => "service criteria inference"

/-- Where a fragment comes from. -/
structure Expansion where
  /-- The unit of the declaration that was expanded. -/
  parent : UnitId
  inference : Inference
  /-- The declaration that was expanded. -/
  anchor : ContextKey
  deriving DecidableEq, Repr, Inhabited

/-- What a unit holds. -/
inductive UnitBody where
  | tree (tree : Syntax.SourceTree)
  /-- Members added to a classifier. -/
  | members (owner : ClassifierIndex) (members : List Syntax.Member)
  /-- Clauses added to a service. -/
  | clauses (service : ServiceIndex) (clauses : List Syntax.Clause)
  deriving Repr, Inhabited

structure CompilationUnit where
  id : UnitId
  sourceName : String
  package : String
  /-- Absent for a source file. -/
  expansion : Option Expansion
  body : UnitBody
  deriving Repr, Inhabited

namespace UnitBody

/-- Number every node and place it at `span`. -/
def anchored (span : Span) : UnitBody → UnitBody
  | tree source => tree (source.numbered (.anchor span))
  | members owner declarations =>
    members owner ((Syntax.Numbering.members (.anchor span) declarations).run {}).1
  | clauses service declarations =>
    clauses service ((Syntax.Numbering.clauses (.anchor span) declarations).run {}).1

end UnitBody

namespace CompilationUnit

/-- The unit of a source file: nodes are numbered afresh and spans are kept. -/
def ofTree (id : UnitId) (sourceName : String) (tree : Syntax.SourceTree) : CompilationUnit where
  id
  sourceName
  package := tree.package.name
  expansion := none
  body := .tree (tree.numbered .keep)

/-- A fragment whose nodes all stand where the expanded declaration stands. -/
def ofExpansion (id : UnitId) (parent : CompilationUnit) (inference : Inference)
    (anchor : ContextKey) (span : Span) (body : UnitBody) : CompilationUnit where
  id
  sourceName := parent.sourceName ++ " (" ++ inference.name ++ ")"
  package := parent.package
  expansion := some ⟨parent.id, inference, anchor⟩
  body := body.anchored span

/-- Whether an inference made the unit. -/
def isExpansion (unit : CompilationUnit) : Bool :=
  unit.expansion.isSome

/-- The tree of a source file. -/
def tree? (unit : CompilationUnit) : Option Syntax.SourceTree :=
  match unit.body with
  | .tree tree => some tree
  | .members _ _ | .clauses _ _ => none

def context (unit : CompilationUnit) (node : NodeId) : ContextKey :=
  ⟨unit.id, node⟩

end CompilationUnit
end DomainLang
