import ScriptLexer.Text.Position

namespace ScriptLexer

-- A character that begins no token, or a string whose closing quote never comes. A
-- comment left open is no error.
inductive LexError.Cause where
  | unexpectedCharacter (character : Char)
  | unterminatedString
deriving DecidableEq

structure LexError where
  cause : LexError.Cause
  position : Position
deriving DecidableEq

namespace LexError

def Cause.message : Cause → String
  | unexpectedCharacter _ => "Unexpected character"
  | unterminatedString => "Unterminated string"

def Cause.label : Cause → String
  | unexpectedCharacter character => "`" ++ character.toString ++ "`"
  | unterminatedString => "string starts here"

def headline (error : LexError) : String :=
  "[line " ++ error.position.line.repr ++ "] Error: " ++ error.cause.message

end LexError

end ScriptLexer
