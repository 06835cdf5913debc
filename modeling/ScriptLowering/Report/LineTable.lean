import ScriptLowering.Span
import ScriptLowering.Text.Slice

/-!
# Lines and columns

A line table holds the offset at which each line of a text starts.  Looking an
offset up gives the line it is on and its column, both counted from one.  A
column counts characters, not bytes.

Main definitions:

- `LineTable.ofSource`: the table of a text.
- `LineTable.lineAt`, `LineTable.positionAt`: the line, and the line and column, of an offset.
- `LineTable.lineStart?`: the offset at which a line starts.
-/

namespace ScriptLowering

/-- A line and a column, both counted from one. -/
structure Position where
  line : UInt32
  column : UInt32
deriving DecidableEq, Inhabited

namespace Position

/-- The position of whatever has no place in a text. -/
def origin : Position := ⟨1, 1⟩

/-- One position comes no later than another: on an earlier line, or on the same line and not
further to the right. -/
def isLe (a b : Position) : Bool :=
  a.line < b.line || (a.line == b.line && a.column ≤ b.column)

end Position

/-- The offset at which each line of a text starts, in order. -/
structure LineTable where
  starts : List UInt32
deriving DecidableEq, Inhabited

namespace LineTable

/-- The table without a line. -/
def empty : LineTable := ⟨[]⟩

/-- A count as a 32-bit word; a count that is too large becomes the largest word. -/
def word (n : Nat) : UInt32 :=
  UInt32.ofNat (min n Span.maxOffset)

/-- The offsets just after the line breaks of a text whose first character is at `offset`. -/
def startsAfter (offset : Nat) : List Char → List UInt32
  | [] => []
  | c :: rest =>
    let next := offset + c.utf8Size
    if c == '\n' then word next :: startsAfter next rest else startsAfter next rest

/-- The table of a text: its first line starts at zero, and every line break starts another. -/
def ofSource (source : String) : LineTable :=
  ⟨0 :: startsAfter 0 source.toList⟩

/-- The number of lines. -/
def size (table : LineTable) : Nat :=
  table.starts.length

/-- The ordinal of an index, which is one larger.  An index that is no 32-bit word has the largest
ordinal; the largest word itself has no ordinal left, and its successor is zero. -/
def ordinal (index : Nat) : UInt32 :=
  (if index ≤ Span.maxOffset then UInt32.ofNat index else UInt32.ofNat (Span.maxOffset - 1)) + 1

/-- The line of an offset: the last one that starts at or before it, or the first. -/
def lineAt (table : LineTable) (offset : UInt32) : UInt32 :=
  ordinal (table.starts.countP (fun start => start ≤ offset) - 1)

/-- The offset at which a line starts. -/
def lineStart? (table : LineTable) (line : UInt32) : Option UInt32 :=
  if line == 0 then none else table.starts[line.toNat - 1]?

/-- The position of an offset in `source`.  An offset past the end counts as the end.  Where the
stretch from the start of the line to the offset is no slice of the text, the column is one. -/
def positionAt (table : LineTable) (source : String) (offset : UInt32) : Position :=
  let line := table.lineAt offset
  let start := ((table.lineStart? line).getD 0).toNat
  let stop := min offset.toNat source.utf8ByteSize
  let before := (Text.slice? source start stop).elim 0 String.length
  ⟨line, ordinal before⟩

end LineTable

/-- The position of an offset in a text, by the table of that text. -/
def positionIn (source : String) (offset : UInt32) : Position :=
  (LineTable.ofSource source).positionAt source offset

end ScriptLowering
