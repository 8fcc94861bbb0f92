import ScriptLexer.Segment.Split
import ScriptLexer.Scan.Event

namespace ScriptLexer

-- The whole of a scan: what happened and the point where the source ended. Tokens and
-- errors are two views of one list, so neither can disturb the other.
structure Scan where
  events : List Event
  finish : Place
deriving DecidableEq

def events (source : List Char) : List Event :=
  (placed .start (segments source)).filterMap fun (place,piece) => piece.event? place

def scan (source : List Char) : Scan := ⟨events source,Place.start.after source⟩

namespace Scan

def endToken (result : Scan) : Token :=
  ⟨.endOfSource,[],none,⟨result.finish.line,⟨result.finish.offset,result.finish.offset⟩⟩⟩

def tokens (result : Scan) : List Token := result.events.filterMap Event.token? ++ [result.endToken]

def errors (result : Scan) : List LexError := result.events.filterMap Event.error?

end Scan

end ScriptLexer
