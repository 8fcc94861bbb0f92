import ScriptLexer.Numeral.Shortest

namespace ScriptLexer

inductive Literal where
  | text (characters : List Char)
  | number (value : Binary64)
deriving DecidableEq

namespace Literal

def display : Literal → String
  | text characters => String.ofList characters
  | number value => String.ofList value.text

def agrees : Literal → Literal → Bool
  | text first,text second => first == second
  | number first,number second => first.agrees second
  | _,_ => false

def text? : Literal → Option (List Char)
  | text characters => some characters
  | number _ => none

def number? : Literal → Option Binary64
  | text _ => none
  | number value => some value

end Literal

end ScriptLexer
