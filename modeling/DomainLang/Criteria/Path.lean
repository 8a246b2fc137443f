import DomainLang.Hierarchy.Lineage
import DomainLang.Program.Registry

/-!
# Resolving member paths

A path starts at a classifier, goes along association ends and ends at a
property. Once a step fails, every later step carries that same failure.
-/

namespace DomainLang.Program

open Resolved (Hop MemberPath)
open Syntax (Identifier)

/-- The classifier that an association end leads to. -/
def endTarget (program : Program) (associationEnd : AssociationEndIndex) :
    Resolution ClassifierIndex :=
  (program.associationEnds.get associationEnd).target.map .klass

/-- The association end with a name; an interface has none. -/
def findHop (program : Program) (name : String) : ClassifierIndex → Resolution AssociationEndIndex
  | .klass klass => program.findAssociationEnd klass name
  | .interface _ => .notFound

/-- The steps along association ends and the classifier they lead to. -/
def followHops (program : Program) (current : Resolution ClassifierIndex) :
    List Identifier → List Hop × Resolution ClassifierIndex
  | [] => ([], current)
  | name :: rest =>
    let target := current.andThen (program.findHop name.name)
    let (hops, last) := followHops program (target.andThen program.endTarget) rest
    (⟨name, target⟩ :: hops, last)

/-- The path from a classifier along association ends to a member. -/
def resolvePath (program : Program) (origin : Resolved.Origin)
    (classifier : Resolution ClassifierIndex) (hops : List Identifier) (member : Identifier)
    (unit : UnitId) (span : Span) : MemberPath :=
  let (steps, last) := program.followHops classifier hops
  { origin, classifier, hops := steps, member
    property := last.andThen fun owner => program.findProperty owner member.name
    unit, span }

/-- A path from the classifier that criteria are about. -/
def resolveThisPath (program : Program) (this : Resolution ClassifierIndex) (unit : UnitId)
    (path : Syntax.ThisPath) : MemberPath :=
  program.resolvePath .this this path.hops path.member unit path.span

/-- A path from a classifier given by name. -/
def resolveTypePath (registry : Registry) (program : Program) (unit : UnitId)
    (path : Syntax.TypePath) : MemberPath :=
  program.resolvePath (.type path.classifier) (registry.findClassifier path.classifier.name)
    path.hops path.member unit path.span

end DomainLang.Program
