import ScriptLexer.Text.Extent

namespace ScriptLexer

-- A point of a source: the number of its line, from one, and its byte offset. A
-- lexer carries nothing else from one piece of the source to the next.
structure Place where
  line : Nat
  offset : Nat
deriving DecidableEq

def Place.start : Place := ⟨1,0⟩

def Place.after (place : Place) (text : List Char) : Place :=
  ⟨place.line + lineFeeds text,place.offset + byteLength text⟩

theorem Place.after_nil (place : Place) : place.after [] = place := rfl

theorem Place.after_append (place : Place) (front back : List Char) :
    place.after (front ++ back) = (place.after front).after back := by
  simp only [Place.after,lineFeeds_append,byteLength_append,Nat.add_assoc]

end ScriptLexer
