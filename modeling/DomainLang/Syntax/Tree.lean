import DomainLang.Syntax.Association
import DomainLang.Syntax.Projection
import DomainLang.Syntax.Service

/-!
# Source trees

The whole of one source file: its package and its top-level declarations in
written order.
-/

namespace DomainLang.Syntax

/-- The package a file belongs to. -/
structure Package extends Node where
  name : String
  deriving DecidableEq, Repr, Inhabited

/-- A top-level declaration. -/
inductive Declaration where
  | enumeration (enumeration : Enumeration)
  | interface (interface : Interface)
  | klass (declaration : Class)
  | association (association : Association)
  | projection (projection : Projection)
  | serviceGroup (group : ServiceGroup)
  deriving Repr, Inhabited

/-- One source file. -/
structure SourceTree where
  package : Package
  elements : List Declaration
  deriving Repr, Inhabited

namespace Declaration

def node : Declaration → Node
  | enumeration declaration => declaration.toNode
  | interface declaration => declaration.toNode
  | klass declaration => declaration.toNode
  | association declaration => declaration.toNode
  | projection declaration => declaration.toNode
  | serviceGroup declaration => declaration.toNode

/-- The declared name. -/
def name : Declaration → Identifier
  | enumeration declaration => declaration.name
  | interface declaration => declaration.name
  | klass declaration => declaration.name
  | association declaration => declaration.name
  | projection declaration => declaration.name
  | serviceGroup declaration => declaration.name

/-- The members of a classifier. -/
def members? : Declaration → Option (List Member)
  | interface declaration => some declaration.members
  | klass declaration => some declaration.members
  | enumeration _ | association _ | projection _ | serviceGroup _ => none

/-- What kind of declaration it is, in words. -/
def kindName : Declaration → String
  | enumeration _ => "enumeration"
  | interface _ => "interface"
  | klass declaration => if declaration.isUser then "user" else "class"
  | association _ => "association"
  | projection _ => "projection"
  | serviceGroup _ => "service group"

instance : Codec Declaration where
  encode
    | enumeration declaration => .tagged "Enumeration" (encode declaration)
    | interface declaration => .tagged "Interface" (encode declaration)
    | klass declaration => .tagged "Class" (encode declaration)
    | association declaration => .tagged "Association" (encode declaration)
    | projection declaration => .tagged "Projection" (encode declaration)
    | serviceGroup declaration => .tagged "ServiceGroup" (encode declaration)
  decode json :=
    match json.alternative? with
    | some ("Enumeration", some content) => (decode content).map enumeration
    | some ("Interface", some content) => (decode content).map interface
    | some ("Class", some content) => (decode content).map klass
    | some ("Association", some content) => (decode content).map association
    | some ("Projection", some content) => (decode content).map projection
    | some ("ServiceGroup", some content) => (decode content).map serviceGroup
    | _ => none

end Declaration

instance : Codec Package where
  encode package := .object (package.toNode.fields ++ [("name", encode package.name)])
  decode json := do
    let [id, span, name] ← json.components? ["id", "span", "name"] | none
    return ⟨← Node.ofComponents? id span, ← Codec.required name⟩

instance : Codec SourceTree where
  encode tree := .object [("package", encode tree.package), ("elements", encode tree.elements)]
  decode json := do
    let [package, elements] ← json.components? ["package", "elements"] | none
    return ⟨← Codec.required package, ← Codec.required elements⟩

end DomainLang.Syntax
