import ScriptLexer.Text.Position
import ScriptLexer.Token.Kind
import ScriptLexer.Token.Literal

namespace ScriptLexer

structure Token where
  kind : TokenKind
  lexeme : List Char
  literal : Option Literal
  position : Position
deriving DecidableEq

namespace Token

-- The kind, the text as written and the value if there is one, a space between each.
-- The end of the source has an empty text, so its display ends in the space.
def display (token : Token) : String :=
  let written := token.kind.name ++ " " ++ String.ofList token.lexeme
  match token.literal with
  | some literal => written ++ " " ++ literal.display
  | none => written

def literalAgrees : Option Literal → Option Literal → Bool
  | some first,some second => first.agrees second
  | none,none => true
  | _,_ => false

def agrees (first second : Token) : Bool :=
  first.kind == second.kind && first.lexeme == second.lexeme &&
    literalAgrees first.literal second.literal && first.position == second.position

def text? (token : Token) : Option (List Char) := token.literal.bind Literal.text?

def number? (token : Token) : Option Binary64 := token.literal.bind Literal.number?

end Token

end ScriptLexer
