import DomainLang.Program.Workspace
import DomainLang.Text.Pieces

/-!
# Spelling of names

Top-level names are written in upper camel case and all other names in lower
camel case, with ASCII letters and digits only. A name is never a word of the
language, and a top-level name is never that of a primitive type. Every segment
of a package starts with a lower-case letter.
-/

namespace DomainLang.Naming

/-- The structural words of the language. -/
def reservedWords : List String :=
  ["package", "enumeration", "interface", "class", "association", "projection", "service",
    "relationship", "orderBy", "implements", "extends", "abstract", "this", "null", "true",
    "false", "all", "native", "equalsEdgePoint"]

/-- Whether a text is a letter of a class followed by ASCII letters and digits. -/
def isWord (isFirst : Char → Bool) (text : String) : Bool :=
  match text.toList with
  | [] => false
  | first :: rest => isFirst first && rest.all Char.isAlphanum

/-- Whether a text can name a top-level declaration. -/
def isTopLevelName (text : String) : Bool :=
  isWord Char.isUpper text && text ∉ reservedWords &&
    text ∉ (Vocabulary.all : List Primitive).map keyword

/-- Whether a text can name a member, an end or a parameter. -/
def isMemberName (text : String) : Bool :=
  isWord Char.isLower text && text ∉ reservedWords

/-- Whether a text can name a package. -/
def isPackageName (text : String) : Bool :=
  (Text.pieces '.' text).all (isWord Char.isLower)

/-- Packages with a name that is not allowed. -/
def packages (units : List CompilationUnit) : List Finding :=
  units.flatMap fun unit =>
    match unit.tree? with
    | none => []
    | some tree =>
      if isPackageName tree.package.name then []
      else [⟨.packageName tree.package.name, unit.id, tree.package.span⟩]

/-- Top-level declarations with a name that is not allowed. -/
def topLevel (program : Program) : List Finding :=
  (program.topLevel.filter fun index => !isTopLevelName (program.header index).name.name).map
    fun index =>
      let header := program.header index
      ⟨.topLevelName index.kindName header.name.name, header.unit, header.name.span⟩

/-- Names in lower camel case that are not allowed. -/
def memberNames (problem : String → Problem) (names : List (UnitId × Syntax.Identifier)) :
    List Finding :=
  (names.filter fun entry => !isMemberName entry.2.name).map fun (unit, name) =>
    ⟨problem name.name, unit, name.span⟩

/-- Every name that is not allowed. -/
def findings (workspace : Workspace) : List Finding :=
  let program := workspace.program
  packages workspace.units ++ topLevel program ++
    memberNames .memberName
      (program.properties.records.map (fun property => (property.context.unit, property.name)) ++
        program.parameters.records.map fun parameter =>
          (parameter.context.unit, parameter.name)) ++
    memberNames .endName
      (program.endSignatures.records.map (fun signature =>
          (signature.context.unit, signature.name)) ++
        program.associationEnds.records.map fun associationEnd =>
          (associationEnd.context.unit, associationEnd.name))

end DomainLang.Naming
