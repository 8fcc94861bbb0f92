import ScriptLexer.Diagnostic.Excerpt
import ScriptLexer.Diagnostic.Columns

namespace ScriptLexer.ShownLine

-- An empty span is marked as if it held the byte behind it.
def reach (span : Span) : Nat := span.start + max span.length 1

def holds (line : ShownLine) (span : Span) : Bool :=
  line.start ≤ span.start && span.stop ≤ line.stop

def opens (line : ShownLine) (span : Span) : Bool :=
  line.start ≤ span.start && span.start < line.stop

def closes (line : ShownLine) (span : Span) : Bool :=
  line.start < reach span && reach span ≤ line.stop

def within (line : ShownLine) (span : Span) : Bool :=
  span.start < line.start && line.stop < reach span

def touches (line : ShownLine) (span : Span) : Bool :=
  line.opens span || line.within span || line.closes span

-- A span over several lines is drawn in a gutter of its own, left of the text.
def inGutter (line : ShownLine) (span : Span) : Bool :=
  line.touches span && !(line.opens span && line.closes span)

def labelled (line : ShownLine) (span : Span) : Bool :=
  span.start < line.start && line.start ≤ span.stop && span.stop ≤ line.stop

def columnsBefore (line : ShownLine) (counted : Nat → Char → Bool) (byte : Nat) : Nat :=
  displayWidth (((withOffsets 0 line.text).filter fun (offset,c) => counted offset c).map (·.2)) +
    if byteLength line.text < byte then 1 else 0

-- A span that starts inside a character starts with that character, and one that stops
-- inside a character stops behind it.
def startColumn (line : ShownLine) (span : Span) : Nat :=
  let byte := span.start - line.start
  line.columnsBefore (fun offset c => offset + c.utf8Size ≤ byte) byte

def stopColumn (line : ShownLine) (span : Span) : Nat :=
  let byte := span.stop - line.start
  line.columnsBefore (fun offset _ => offset < byte) byte

end ScriptLexer.ShownLine
