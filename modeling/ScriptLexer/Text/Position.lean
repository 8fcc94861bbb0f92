namespace ScriptLexer

-- A range of byte offsets, the end excluded. Nothing forces the ends into order: a
-- position only records what it was given.
structure Span where
  start : Nat
  stop : Nat
deriving DecidableEq

def Span.length (span : Span) : Nat := span.stop - span.start

structure Position where
  line : Nat
  span : Span
deriving DecidableEq

def Position.display (position : Position) : String :=
  "[" ++ position.line.repr ++ ":" ++ position.span.start.repr ++ ".." ++ position.span.stop.repr ++ "]"

end ScriptLexer
