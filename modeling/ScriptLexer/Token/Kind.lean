import ScriptLexer.Token.Operator
import ScriptLexer.Token.Keyword

namespace ScriptLexer

inductive TokenKind where
  | endOfSource
  | operator (o : Operator)
  | identifier
  | string
  | number
  | keyword (k : Keyword)
deriving DecidableEq

namespace TokenKind

def name : TokenKind → String
  | endOfSource => "EOF"
  | operator o => o.name
  | identifier => "Identifier"
  | string => "String"
  | number => "Number"
  | keyword k => k.name

def all : List TokenKind :=
  endOfSource :: Operator.all.map operator ++ [identifier,string,number] ++ Keyword.all.map keyword

def ofName? (text : String) : Option TokenKind := all.find? (·.name == text)

def ofWord (word : List Char) : TokenKind :=
  match Keyword.ofText? word with
  | some k => keyword k
  | none => identifier

theorem mem_all (kind : TokenKind) : kind ∈ all := by
  cases kind <;> simp [all,Operator.mem_all,Keyword.mem_all]

end TokenKind

end ScriptLexer
