import DomainLang.Json.Codec

/-!
# Spans

A span is a range of bytes of one source file. The line it starts on is kept
beside the offsets, so a position can be named even when the text is not at
hand.
-/

namespace DomainLang

/-- A byte range of a source file. -/
structure Span where
  /-- Position of the file in its source map. -/
  fileId : UInt16
  /-- Offset of the first byte. -/
  start : UInt32
  /-- Offset after the last byte. -/
  stop : UInt32
  /-- Line of the first byte, counted from one. -/
  startLine : UInt16
  deriving DecidableEq, Repr, Inhabited

namespace Span

/-- The empty span at the start of a file. -/
def startOf (fileId : UInt16) : Span :=
  ⟨fileId, 0, 0, 1⟩

/-- The span of a node that stands nowhere. -/
def placeholder : Span :=
  ⟨0, 0, 0, 0⟩

/-- Whether the span holds no byte. -/
def isEmpty (span : Span) : Bool :=
  span.stop ≤ span.start

/-- The number of bytes; none when the end precedes the start. -/
def length (span : Span) : Nat :=
  span.stop.toNat - span.start.toNat

instance : Codec Span where
  encode span := .object [("file_id", encode span.fileId), ("start", encode span.start),
    ("end", encode span.stop), ("start_line", encode span.startLine)]
  decode json := do
    let [fileId, start, stop, startLine] ←
      json.components? ["file_id", "start", "end", "start_line"] | none
    return ⟨← Codec.required fileId, ← Codec.required start, ← Codec.required stop,
      ← Codec.required startLine⟩

end Span
end DomainLang
