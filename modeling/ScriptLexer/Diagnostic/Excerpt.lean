import ScriptLexer.Diagnostic.LineTable

namespace ScriptLexer

structure ShownLine where
  number : Nat
  start : Nat
  size : Nat
  text : List Char
deriving DecidableEq

def ShownLine.stop (line : ShownLine) : Nat := line.start + line.size

-- What is shown of a source around a span. `line` and `column` say where the span
-- starts, both from one; the column counts bytes.
structure Excerpt where
  line : Nat
  column : Nat
  lines : List ShownLine
deriving DecidableEq

def withoutReturn (line : List Char) : List Char :=
  if line.getLast? = some '\r' then line.dropLast else line

-- Shown lines end at LF or CR LF only, so a CR alone stays in the text. A last line
-- that stops in such a CR is numbered as the line before it.
def shownLines (number start : Nat) (text : List Char) : List ShownLine :=
  let line := text.takeWhile (· != '\n')
  match rest : text.dropWhile (· != '\n') with
  | _ :: after =>
    ⟨number,start,byteLength line + 1,withoutReturn line⟩ ::
      shownLines (number + 1) (start + byteLength line + 1) after
  | [] =>
    if text.isEmpty then []
    else [⟨if text.getLast? = some '\r' then number - 1 else number,start,byteLength text,text⟩]
termination_by text.length
decreasing_by
  have shorter := (List.dropWhile_suffix (l := text) (· != '\n')).length_le
  rw [rest,List.length_cons] at shorter
  omega

def excerpt? (source : List Char) (span : Span) : Option Excerpt :=
  let table := LineTable.ofText source
  if table.covers span then
    let window := table.window span
    some
      { line := table.lineAt span.start + 1
        column := table.columnAt span.start + 1
        lines := shownLines (table.firstShown span + 1) window.start
          (slice source window.start window.stop) }
  else none

end ScriptLexer
