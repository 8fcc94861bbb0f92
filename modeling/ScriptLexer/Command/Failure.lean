namespace ScriptLexer

def programName : String := "nex"

def programVersion : String := "0.1.0"

inductive Failure where
  | usage (text : String)
  | lexicalErrors (count : Nat)
  | unreadable (reason : String)
deriving DecidableEq

namespace Failure

def message : Failure → String
  | usage text => "Usage: " ++ text
  | lexicalErrors count => count.repr ++ " lexical error(s) reported"
  | unreadable reason => "Could not read from file " ++ reason

def exitCode : Failure → Nat
  | usage _ => 64
  | lexicalErrors _ => 65
  | unreadable _ => 66

end Failure

inductive ReadFault where
  | missing
  | denied
  | isDirectory
  | notDirectory
  | notText
  | other (reason : String)
deriving DecidableEq

def ReadFault.reason : ReadFault → String
  | missing => "No such file or directory (os error 2)"
  | denied => "Permission denied (os error 13)"
  | isDirectory => "Is a directory (os error 21)"
  | notDirectory => "Not a directory (os error 20)"
  | notText => "stream did not contain valid UTF-8"
  | other reason => reason

end ScriptLexer
