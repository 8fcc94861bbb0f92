namespace ScriptLexer

structure Arguments where
  help : Bool
  version : Bool
  scripts : List String
deriving DecidableEq

inductive Arguments.Fault where
  | trailing
  | unrecognized (argument : String)
deriving DecidableEq

def Arguments.Fault.message : Arguments.Fault → String
  | trailing => "Trailing arguments are not allowed after `help`."
  | unrecognized argument => "Unrecognized argument: " ++ argument ++ "\n"

namespace Arguments

def none : Arguments := ⟨false,false,[]⟩

def asksForHelp (argument : String) : Bool := argument == "--help" || argument == "help"

def asksForVersion (argument : String) : Bool := argument == "-v" || argument == "--version"

def isOption (argument : String) : Bool := argument.toList.head? == some '-'

-- From left to right. A `--` makes everything behind it a script. Reading stops at the
-- first option that is unknown or that follows a call for help.
def read (seen : Arguments) : List String → Except Fault Arguments
  | [] => .ok seen
  | argument :: rest =>
    if argument = "--" then .ok { seen with scripts := seen.scripts ++ rest }
    else if asksForHelp argument then read { seen with help := true } rest
    else if isOption argument then
      if seen.help then .error .trailing
      else if asksForVersion argument then read { seen with version := true } rest
      else .error (.unrecognized argument)
    else read { seen with scripts := seen.scripts ++ [argument] } rest

end Arguments

-- What is done about the arguments. Help goes before the version and the version
-- before any script.
inductive Request where
  | refuse (fault : Arguments.Fault)
  | help
  | version
  | manyScripts
  | script (name : String)
  | interactive
deriving DecidableEq

def Request.ofArguments (arguments : List String) : Request :=
  match Arguments.read .none arguments with
  | .error fault => .refuse fault
  | .ok seen =>
    if seen.help then .help
    else if seen.version then .version
    else
      match seen.scripts with
      | [] => .interactive
      | [name] => .script name
      | _ => .manyScripts

end ScriptLexer
