import ScriptLexer.Command.Run

-- The program itself: it reads the named script or the typed lines and hands everything
-- else to `run`.
namespace ScriptLexer

-- A call that fails before the file is open gives its code with the sign turned.
def faultOfCode (given : UInt32) (details : String) : ReadFault :=
  let code := min given (0 - given)
  if code = 2 then .missing
  else if code = 13 then .denied
  else if code = 20 then .notDirectory
  else if code = 21 then .isDirectory
  else .other (details ++ " (os error " ++ code.toNat.repr ++ ")")

def faultOfError : IO.Error → ReadFault
  | .noFileOrDirectory _ code details => faultOfCode code details
  | .inappropriateType _ code details => faultOfCode code details
  | .permissionDenied _ code details => faultOfCode code details
  | error => .other (toString error)

def readScript (name : String) : IO (Except ReadFault ByteArray) := do
  try return .ok (← IO.FS.readBinFile name)
  catch error => return .error (faultOfError error)

def conclude (outcome : Outcome) : IO UInt32 := do
  (← IO.getStdout).putStr outcome.stdout
  (← IO.getStderr).putStr outcome.stderr
  return outcome.exitCode.toUInt32

partial def converse (input output : IO.FS.Stream) : IO UInt32 := do
  let line ← input.getLine
  if line.isEmpty then return 0
  output.putStr (answerLine (line.toList.takeWhile (· != '\n')))
  output.flush
  converse input output

end ScriptLexer

def main (arguments : List String) : IO UInt32 := do
  match ScriptLexer.Request.ofArguments arguments with
  | .script name => ScriptLexer.conclude (ScriptLexer.runScript (← ScriptLexer.readScript name))
  | .interactive => ScriptLexer.converse (← IO.getStdin) (← IO.getStdout)
  | _ => ScriptLexer.conclude (ScriptLexer.run (fun _ => .error .missing) [] arguments)
