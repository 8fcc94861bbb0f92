import ScriptLexer.Diagnostic.LineEnd
import ScriptLexer.Text.Position

namespace ScriptLexer

structure LineTable where
  ends : List LineEnd
  size : Nat
deriving DecidableEq

namespace LineTable

def ofText (source : List Char) : LineTable := ⟨lineEnds 0 source,byteLength source⟩

-- The line that holds this offset; a line end belongs to the line it ends.
def lineAt (table : LineTable) (offset : Nat) : Nat :=
  table.ends.countP fun lineEnd => lineEnd.next ≤ offset

def stoppedBy (table : LineTable) (offset : Nat) : Nat :=
  table.ends.countP fun lineEnd => lineEnd.stop ≤ offset

def startOf (table : LineTable) : Nat → Nat
  | 0 => 0
  | line + 1 => (table.ends[line]?.map LineEnd.next).getD table.size

def stopOf (table : LineTable) (line : Nat) : Nat :=
  (table.ends[line]?.map LineEnd.stop).getD table.size

def columnAt (table : LineTable) (offset : Nat) : Nat :=
  let line := table.lineAt offset
  min offset (table.stopOf line) - table.startOf line

-- A span can be shown if its last byte is in the source or directly behind it.
def covers (table : LineTable) (span : Span) : Bool := span.stop - 1 ≤ table.size

def contextLines : Nat := 3

def firstShown (table : LineTable) (span : Span) : Nat := table.lineAt span.start - contextLines

-- The part of the source that is shown: from three lines before the span to three
-- behind it. Where the content of the span's last line has stopped within the span, the
-- line that comes next counts as the last.
def window (table : LineTable) (span : Span) : Span :=
  ⟨table.startOf (table.firstShown span),
   table.startOf (table.stoppedBy (span.stop - 1) + contextLines + 1)⟩

end LineTable

end ScriptLexer
