import ScriptLexer.Scan.Basic

namespace ScriptLexer

inductive LogLevel where
  | trace
  | debug
deriving DecidableEq

def LogLevel.name : LogLevel → String
  | trace => "TRACE"
  | debug => "DEBUG"

inductive LogRecord where
  | event (event : Event)
  | finished (tokens lines : Nat)
deriving DecidableEq

namespace LogRecord

def level : LogRecord → LogLevel
  | event (.token _) => .trace
  | event (.error _) => .debug
  | event (.openComment _) => .trace
  | finished _ _ => .debug

def message : LogRecord → String
  | event (.token token) => token.position.display ++ " " ++ token.display
  | event (.error error) =>
    "lexical error at " ++ error.position.display ++ ": " ++ error.cause.message
  | event (.openComment line) => "block comment at line " ++ line.repr ++ " runs to end of input"
  | finished tokens lines =>
    "scanned " ++ tokens.repr ++ " tokens over " ++ lines.repr ++ " lines"

end LogRecord

def Scan.log (result : Scan) : List LogRecord :=
  result.events.map .event ++
    [.event (.token result.endToken),.finished result.tokens.length result.finish.line]

end ScriptLexer
