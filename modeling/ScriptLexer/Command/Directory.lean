import ScriptLexer.Command.Failure

namespace ScriptLexer

structure Directory where
  files : List (List String × ByteArray)

namespace Directory

-- A place that a path can lead to. Of what lies above the directory only that it is
-- there is known.
inductive Location where
  | above
  | folder (path : List String)
  | file (content : ByteArray)

def enter (directory : Directory) (path : List String) : Except ReadFault Location :=
  match directory.files.find? (·.1 == path) with
  | some (_,content) => .ok (.file content)
  | none =>
    if directory.files.any fun (names,_) => path.isPrefixOf names then .ok (.folder path)
    else .error .missing

-- Nothing leads on from a file, not even a name that would stay where it is.
def step (directory : Directory) (name : String) : Location → Except ReadFault Location
  | .file _ => .error .notDirectory
  | .above => if name = "" ∨ name = "." ∨ name = ".." then .ok .above else .error .missing
  | .folder path =>
    if name = "" ∨ name = "." then .ok (.folder path)
    else if name = ".." then .ok (if path.isEmpty then .above else .folder path.dropLast)
    else directory.enter (path ++ [name])

def locate (directory : Directory) (path : String) : Except ReadFault Location :=
  if path = "" then .error .missing
  else
    let start : Location := if path.toList.head? == some '/' then .above else .folder []
    (path.splitOn "/").foldlM (fun location name => directory.step name location) start

def read (directory : Directory) (path : String) : Except ReadFault ByteArray := do
  match ← directory.locate path with
  | .file content => .ok content
  | _ => .error .isDirectory

end Directory

end ScriptLexer
