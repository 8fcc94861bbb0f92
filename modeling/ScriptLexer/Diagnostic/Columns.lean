import ScriptLexer.Text.Width

-- Where the characters of one line come to stand on a terminal. Tabs go to the next
-- multiple of four, and an escape hides everything up to the letter that ends it.
namespace ScriptLexer

def tabStop : Nat := 4

structure Cursor where
  column : Nat
  hidden : Bool
deriving DecidableEq

namespace Cursor

def start : Cursor := ⟨0,false⟩

def width (cursor : Cursor) (c : Char) : Nat :=
  if cursor.hidden then 0
  else if c = '\t' then tabStop - cursor.column % tabStop
  else charWidth c

def advance (cursor : Cursor) (c : Char) : Cursor :=
  ⟨cursor.column + cursor.width c,if cursor.hidden then c ≠ 'm' else c = '\x1b'⟩

end Cursor

def displayWidth (text : List Char) : Nat := (text.foldl Cursor.advance .start).column

def expandTabs (text : List Char) : List Char :=
  ((text.scanl Cursor.advance .start).zip text).flatMap fun (cursor,c) =>
    if c = '\t' then List.replicate (cursor.width c) ' ' else [c]

end ScriptLexer
