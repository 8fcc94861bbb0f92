import ScriptLexer.Segment.Basic
import ScriptLexer.Text.Place
import ScriptLexer.Token.Basic
import ScriptLexer.LexError

namespace ScriptLexer

-- What a scan has to tell about a source, in the order of the source. A comment left
-- open is told of with the line reached, although it is neither token nor error.
inductive Event where
  | token (token : Token)
  | error (error : LexError)
  | openComment (line : Nat)
deriving DecidableEq

def Event.token? : Event → Option Token
  | token t => some t
  | _ => none

def Event.error? : Event → Option LexError
  | error e => some e
  | _ => none

-- A token counts the line on which it begins, an error the line reached at its end:
-- they differ for a string that is left open over several lines.
def Segment.event? (place : Place) (piece : Segment) : Option Event :=
  let reached := place.after piece.text
  let span : Span := ⟨place.offset,reached.offset⟩
  let token (kind : TokenKind) (literal : Option Literal) : Option Event :=
    some (.token ⟨kind,piece.text,literal,⟨place.line,span⟩⟩)
  let error (cause : LexError.Cause) : Option Event := some (.error ⟨cause,⟨reached.line,span⟩⟩)
  match piece with
  | .blank _ => none
  | .lineComment _ => none
  | .blockComment _ => none
  | .openComment _ => some (.openComment reached.line)
  | .string body => token .string (some (.text body))
  | .openString _ => error .unterminatedString
  | .number whole fraction =>
    token .number (some (.number (Decimal.ofDigits whole fraction).toBinary64))
  | .word letters => token (.ofWord letters) none
  | .operator o => token (.operator o) none
  | .stray c => error (.unexpectedCharacter c)

end ScriptLexer
