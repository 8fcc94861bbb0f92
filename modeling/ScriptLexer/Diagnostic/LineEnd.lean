import ScriptLexer.Text.Extent

namespace ScriptLexer

structure LineEnd where
  stop : Nat
  next : Nat
deriving DecidableEq

-- A line ends at LF, at CR LF taken together, and at a CR alone.
def lineEnds (offset : Nat) : List Char → List LineEnd
  | '\r' :: '\n' :: rest => ⟨offset,offset + 2⟩ :: lineEnds (offset + 2) rest
  | c :: rest =>
    if c = '\r' ∨ c = '\n' then ⟨offset,offset + 1⟩ :: lineEnds (offset + 1) rest
    else lineEnds (offset + c.utf8Size) rest
  | [] => []

end ScriptLexer
