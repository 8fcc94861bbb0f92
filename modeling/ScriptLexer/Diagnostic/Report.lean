import ScriptLexer.Diagnostic.Mark
import ScriptLexer.LexError

namespace ScriptLexer

structure Diagnostic where
  headline : String
  label : String
  span : Span
deriving DecidableEq

def LexError.diagnostic (error : LexError) : Diagnostic :=
  ⟨error.headline,error.cause.label,error.position.span⟩

namespace Diagnostic

def fill (count : Nat) (c : Char) : String := String.ofList (List.replicate count c)

def spaces (count : Nat) : String := fill count ' '

structure Margin where
  numberWidth : Nat
  gutter : Bool
deriving DecidableEq

def marginOf (span : Span) (excerpt : Excerpt) : Margin where
  numberWidth := ((excerpt.lines.getLast?.map ShownLine.number).getD 0).repr.length
  gutter := excerpt.lines.any fun line => line.inGutter span && !line.holds span

def gutterMark (span : Span) (line : ShownLine) : String :=
  if !line.inGutter span then "    "
  else if line.start ≤ span.start then "╭─▶ "
  else if line.labelled span then "├─▶ "
  else if line.stop < span.stop then "│   "
  else "    "

def textRow (margin : Margin) (span : Span) (line : ShownLine) : String :=
  let number := line.number.repr
  " " ++ spaces (margin.numberWidth - number.length) ++ number ++ " │ " ++
    (if margin.gutter then gutterMark span line else "") ++ String.ofList (expandTabs line.text)

def markRow (margin : Margin) (gutter marks : String) : String :=
  " " ++ spaces margin.numberWidth ++ " · " ++ (if margin.gutter then gutter else "") ++ marks

def underline (margin : Margin) (diagnostic : Diagnostic) (line : ShownLine) : List String :=
  let span := diagnostic.span
  let gutter := if line.inGutter span then "│   " else "    "
  let start := line.startColumn span
  let empty := span.length = 0
  let stop := if empty then start + 1 else max (line.stopColumn span) (start + 1)
  let middle := (start + stop) / 2
  [markRow margin gutter (spaces start ++ fill (middle - start) '─' ++
     (if empty then "▲" else "┬") ++ fill (stop - middle - 1) '─'),
   markRow margin gutter (spaces middle ++ "╰── " ++ diagnostic.label)]

def marks (margin : Margin) (diagnostic : Diagnostic) (line : ShownLine) : List String :=
  let span := diagnostic.span
  if !line.touches span then []
  else if line.holds span then underline margin diagnostic line
  else if line.labelled span then
    [markRow margin (if line.inGutter span then "╰───" else "    ") ("─ " ++ diagnostic.label)]
  else []

-- The place is named only if more than one line is shown.
def openingRow (margin : Margin) (excerpt : Excerpt) : String :=
  spaces (margin.numberWidth + 2) ++ "╭─" ++
    if excerpt.lines.length > 1 then
      "[" ++ excerpt.line.repr ++ ":" ++ excerpt.column.repr ++ "]"
    else "───"

def snippet (diagnostic : Diagnostic) (excerpt : Excerpt) : List String :=
  let margin := marginOf diagnostic.span excerpt
  openingRow margin excerpt ::
    excerpt.lines.flatMap (fun line =>
      textRow margin diagnostic.span line :: marks margin diagnostic line) ++
    [spaces (margin.numberWidth + 2) ++ "╰────"]

def outOfBounds (diagnostic : Diagnostic) : String :=
  "  [Failed to read contents for label `" ++ diagnostic.label ++ "` (offset: " ++
    diagnostic.span.start.repr ++ ", length: " ++ diagnostic.span.length.repr ++ "): OutOfBounds]"

def rows (source : List Char) (diagnostic : Diagnostic) : List String :=
  ("  × " ++ diagnostic.headline) ::
    match excerpt? source diagnostic.span with
    | some excerpt => snippet diagnostic excerpt
    | none => [outOfBounds diagnostic]

def report (source : List Char) (diagnostic : Diagnostic) : String :=
  String.join ((rows source diagnostic).map (· ++ "\n"))

end Diagnostic

def LexError.report (source : List Char) (error : LexError) : String :=
  error.diagnostic.report source

end ScriptLexer
