import ScriptLexer.Token.Operator

namespace ScriptLexer

-- One piece of a source. The pieces of a source cover all of it, comments and blank
-- space included, and `text` writes each one back as it stood.
inductive Segment where
  | blank (c : Char)
  | lineComment (body : List Char)
  | blockComment (body : List Char)
  | openComment (body : List Char)
  | string (body : List Char)
  | openString (body : List Char)
  | number (whole fraction : List Char)
  | word (letters : List Char)
  | operator (o : Operator)
  | stray (c : Char)
deriving DecidableEq

def isBlank (c : Char) : Bool := c == ' ' || c == '\r' || c == '\t' || c == '\n'

def isWordStart (c : Char) : Bool := c.isAlpha || c == '_'

def isWordPart (c : Char) : Bool := c.isAlphanum || c == '_'

namespace Segment

def numberText (whole : List Char) : List Char → List Char
  | [] => whole
  | fraction => whole ++ '.' :: fraction

def text : Segment → List Char
  | blank c => [c]
  | lineComment body => '/' :: '/' :: body
  | blockComment body => '/' :: '*' :: body ++ ['*','/']
  | openComment body => '/' :: '*' :: body
  | string body => '"' :: body ++ ['"']
  | openString body => '"' :: body
  | number whole fraction => numberText whole fraction
  | word letters => letters
  | operator o => o.text
  | stray c => [c]

end Segment

end ScriptLexer
