import ScriptLexer.Scan.Basic
import ScriptLexer.Diagnostic.Report
import ScriptLexer.Terminal.Visible
import ScriptLexer.Command.Arguments
import ScriptLexer.Command.Failure

namespace ScriptLexer

structure Outcome where
  exitCode : Nat
  stdout : String
  stderr : String
deriving DecidableEq

namespace Outcome

def success (stdout : String) : Outcome := ⟨0,stdout,""⟩

def failed (stdout : String) (failure : Failure) : Outcome :=
  ⟨failure.exitCode,stdout,failure.message ++ "\n"⟩

end Outcome

def helpText : String :=
  "Usage: nex [-v] [--] [<script...>]\n\n" ++
  "Tokenize a nex script or run a REPL that prints tokens for each line.\n\n" ++
  "Positional Arguments:\n" ++
  "  script            script file\n\n" ++
  "Options:\n" ++
  "  -v, --version     print version information\n" ++
  "  --help, help      display usage information\n\n"

def entries (source : List Char) : List String :=
  let result := scan source
  result.errors.map (·.report source) ++ result.tokens.map Token.display

def printed (source : List Char) : String :=
  visible (String.join ((entries source).map (· ++ "\n")))

def runSource (source : List Char) : Outcome :=
  match (scan source).errors.length with
  | 0 => .success (printed source)
  | count => .failed (printed source) (.lexicalErrors count)

-- A script is a text in UTF-8, to the last byte, or it is not read at all.
def runScript (content : Except ReadFault ByteArray) : Outcome :=
  match content with
  | .error fault => .failed "" (.unreadable fault.reason)
  | .ok bytes =>
    match String.fromUTF8? bytes with
    | none => .failed "" (.unreadable ReadFault.notText.reason)
    | some source => runSource source.toList

-- A line that is typed is a whole source of its own. The returns at its end belong to
-- the way the line was ended.
def withoutReturns (line : List Char) : List Char := (line.reverse.dropWhile (· == '\r')).reverse

def answerLine (line : List Char) : String := printed (withoutReturns line)

def interact (lines : List (List Char)) : String := String.join (lines.map answerLine)

def run (read : String → Except ReadFault ByteArray) (lines : List (List Char))
    (arguments : List String) : Outcome :=
  match Request.ofArguments arguments with
  | .refuse fault =>
    ⟨1,"",fault.message ++ "\nRun " ++ programName ++ " --help for more information.\n"⟩
  | .help => .success helpText
  | .version => .success (programName ++ " " ++ programVersion ++ "\n")
  | .manyScripts => .failed "" (.usage (programName ++ " [script file]"))
  | .script name => runScript (read name)
  | .interactive => .success (interact lines)

end ScriptLexer
