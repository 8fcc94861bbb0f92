namespace ScriptLexer

inductive Operator where
  | leftParen
  | rightParen
  | leftBrace
  | rightBrace
  | comma
  | dot
  | minus
  | plus
  | semicolon
  | slash
  | star
  | bang
  | bangEqual
  | equal
  | equalEqual
  | greater
  | greaterEqual
  | less
  | lessEqual
deriving DecidableEq

namespace Operator

def all : List Operator :=
  [leftParen,rightParen,leftBrace,rightBrace,comma,dot,minus,plus,semicolon,slash,star,
   bang,bangEqual,equal,equalEqual,greater,greaterEqual,less,lessEqual]

def name : Operator → String
  | leftParen => "LeftParen"
  | rightParen => "RightParen"
  | leftBrace => "LeftBrace"
  | rightBrace => "RightBrace"
  | comma => "Comma"
  | dot => "Dot"
  | minus => "Minus"
  | plus => "Plus"
  | semicolon => "Semicolon"
  | slash => "Slash"
  | star => "Star"
  | bang => "Bang"
  | bangEqual => "BangEqual"
  | equal => "Equal"
  | equalEqual => "EqualEqual"
  | greater => "Greater"
  | greaterEqual => "GreaterEqual"
  | less => "Less"
  | lessEqual => "LessEqual"

def text : Operator → List Char
  | leftParen => ['(']
  | rightParen => [')']
  | leftBrace => ['{']
  | rightBrace => ['}']
  | comma => [',']
  | dot => ['.']
  | minus => ['-']
  | plus => ['+']
  | semicolon => [';']
  | slash => ['/']
  | star => ['*']
  | bang => ['!']
  | bangEqual => ['!','=']
  | equal => ['=']
  | equalEqual => ['=','=']
  | greater => ['>']
  | greaterEqual => ['>','=']
  | less => ['<']
  | lessEqual => ['<','=']

def ofChar? (c : Char) : Option Operator := all.find? (·.text == [c])

def withEqual? : Operator → Option Operator
  | bang => some bangEqual
  | equal => some equalEqual
  | greater => some greaterEqual
  | less => some lessEqual
  | _ => none

theorem mem_all (o : Operator) : o ∈ all := by cases o <;> decide

theorem text_of_ofChar {c : Char} {o : Operator} (found : ofChar? c = some o) : o.text = [c] := by
  simpa using List.find?_some found

theorem text_of_withEqual {o longer : Operator} (found : o.withEqual? = some longer) :
    longer.text = o.text ++ ['='] := by
  cases o <;> simp [withEqual?] at found <;> subst found <;> rfl

end Operator

end ScriptLexer
