import DomainLang.Diagnostic.Basic
import DomainLang.Source.File

/-!
# Diagnostics with source lines

A diagnostic is shown with its place and, when the text of the file is known,
with the line it starts on and a mark under the range. Columns count bytes.
-/

namespace DomainLang.Diagnostic

/-- A text repeated. -/
def repeatText (count : Nat) (text : String) : String :=
  String.join (List.replicate count text)

/-- A number in at least `width` columns, aligned to the right. -/
def alignRight (width number : Nat) : String :=
  let digits := toString number
  repeatText (width - digits.length) " " ++ digits

/-- The file, line and column of a span. -/
def place (sources : SourceMap) (span : Span) : String :=
  let (line, column) := sources.lineColumn span
  let path := ((sources.file? span).map SourceFile.path).getD "<unknown>"
  path ++ ":" ++ toString line ++ ":" ++ toString column

/-- The blanks and marks under a source line; at least one mark, and none past
the end of the line. -/
def underline (column length lineLength : Nat) : String :=
  let stop := min (column + length) (lineLength + 1)
  repeatText (column - 1) " " ++ repeatText (max (stop - column) 1) "^"

/-- The line that a span starts on and the mark under it. -/
def excerpt (sources : SourceMap) (span : Span) : String :=
  let (line, column) := sources.lineColumn span
  match (sources.file? span).bind (·.lineText? line) with
  | none => ""
  | some text =>
    "   |\n" ++ alignRight 3 line ++ " | " ++ text ++ "\n" ++
      "   | " ++ underline column span.length text.utf8ByteSize ++ "\n"

/-- The diagnostic with its place, source line, labels and notes. -/
def render (sources : SourceMap) (diagnostic : Diagnostic) : String :=
  diagnostic.summary ++ "\n  --> " ++ place sources diagnostic.span ++ "\n" ++
    excerpt sources diagnostic.span ++
    String.join (diagnostic.labels.map fun label =>
      "   = note: " ++ label.message ++ "\n     at " ++ place sources label.span ++ "\n") ++
    String.join (diagnostic.notes.map fun note => "   = help: " ++ note ++ "\n")

/-- Diagnostics separated by blank lines. -/
def renderAll (sources : SourceMap) (diagnostics : List Diagnostic) : String :=
  "\n".intercalate (diagnostics.map (render sources))

end DomainLang.Diagnostic
