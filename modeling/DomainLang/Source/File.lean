import DomainLang.Source.Span

/-!
# Source files and positions

Offsets count the bytes of the UTF-8 encoding. A `SourceFile` may be known by
name only, in which case its text is empty and positions fall back to the line
kept on the span.

`SourceFile.lineStarts` lists the offset at which every line starts, followed by
the offset of the end of the text unless that is already listed. The end of a
text without a final newline is thus itself listed as a start.
-/

namespace DomainLang

namespace Text

/-- What remains after `count` bytes, when they end between two characters. -/
def dropBytes? : (count : Nat) → List Char → Option (List Char)
  | 0, characters => some characters
  | _, [] => none
  | count, character :: rest =>
    if character.utf8Size ≤ count then dropBytes? (count - character.utf8Size) rest else none

/-- The first `count` bytes, when they end between two characters. -/
def takeBytes? : (count : Nat) → List Char → Option (List Char)
  | 0, _ => some []
  | _, [] => none
  | count, character :: rest =>
    if character.utf8Size ≤ count then
      (takeBytes? (count - character.utf8Size) rest).map (character :: ·)
    else none

/-- The bytes from `start` up to `stop`, when both lie between two characters. -/
def slice? (text : String) (start stop : Nat) : Option String :=
  if stop < start then none
  else do
    let fromStart ← dropBytes? start text.toList
    let characters ← takeBytes? (stop - start) fromStart
    return String.ofList characters

/-- The offsets just after each newline of a text that begins at `offset`. -/
def newlineEnds : (offset : Nat) → List Char → List Nat
  | _, [] => []
  | offset, character :: rest =>
    let next := offset + character.utf8Size
    if character = '\n' then next :: newlineEnds next rest else newlineEnds next rest

/-- Where `target` stands among increasing offsets, between the positions `low` and `high`; as an
error, where it would have to be inserted. -/
def search (offsets : Array Nat) (target low high : Nat) : Except Nat Nat :=
  if low < high then
    let middle := (low + high) / 2
    let found := offsets.getD middle 0
    if found = target then .ok middle
    else if found < target then search offsets target (middle + 1) high
    else search offsets target low middle
  else .error low
termination_by high - low

/-- The text without trailing newlines and carriage returns. -/
def trimLineEnd (text : String) : String :=
  String.ofList (text.toList.reverse.dropWhile fun c => c = '\n' || c = '\r').reverse

end Text

/-- A source file, by name and text. -/
structure SourceFile where
  /-- Path or logical name. -/
  path : String
  /-- The text, empty when only the name is known. -/
  text : String
  deriving DecidableEq, Repr, Inhabited

namespace SourceFile

/-- The offset of each line, and of the end of the text. -/
def lineStarts (file : SourceFile) : List Nat :=
  let starts := 0 :: Text.newlineEnds 0 file.text.toList
  if starts.getLast? = some file.text.utf8ByteSize then starts
  else starts ++ [file.text.utf8ByteSize]

/-- Whether the text is known. -/
def hasText (file : SourceFile) : Bool :=
  file.text ≠ ""

/-- The position among the line starts of the last one that is not after an offset. -/
def lineIndex (file : SourceFile) (offset : Nat) : Nat :=
  let starts := file.lineStarts.toArray
  match Text.search starts offset 0 starts.size with
  | .ok index => index
  | .error index => max index 1 - 1

/-- The line and column of an offset inside the text, both counted from one. -/
def lineColumn? (file : SourceFile) (offset : Nat) : Option (Nat × Nat) :=
  if !file.hasText || file.text.utf8ByteSize < offset then none
  else
    let index := file.lineIndex offset
    some (index + 1, offset - file.lineStarts.getD index 0 + 1)

/-- The text of a line counted from one, without its line end. -/
def lineText? (file : SourceFile) (line : Nat) : Option String :=
  if line = 0 then none
  else do
    let start ← file.lineStarts[line - 1]?
    let stop ← file.lineStarts[line]?
    let content ← Text.slice? file.text start stop
    return Text.trimLineEnd content

end SourceFile

/-- The files of a compilation, found by the position kept on a span. -/
structure SourceMap where
  files : List SourceFile := []
  deriving DecidableEq, Repr, Inhabited

namespace SourceMap

/-- The position the next file will have; all files past the range of positions
share the last one. -/
def nextFileId (sources : SourceMap) : UInt16 :=
  UInt16.ofNat (min sources.files.length 65535)

/-- Add a file at `nextFileId`. -/
def add (sources : SourceMap) (file : SourceFile) : SourceMap :=
  ⟨sources.files ++ [file]⟩

/-- The file a span lies in. -/
def file? (sources : SourceMap) (span : Span) : Option SourceFile :=
  sources.files[span.fileId.toNat]?

def snippet? (sources : SourceMap) (span : Span) : Option String := do
  let file ← sources.file? span
  Text.slice? file.text span.start.toNat span.stop.toNat

/-- The line and column a span starts at; the kept line and the first column
when the text is not known. -/
def lineColumn (sources : SourceMap) (span : Span) : Nat × Nat :=
  ((sources.file? span).bind (·.lineColumn? span.start.toNat)).getD (span.startLine.toNat, 1)

end SourceMap
end DomainLang
