import ScriptLexer.Proofs.Grammar.Rule
import ScriptLexer.Proofs.Scan.Events
import ScriptLexer.Proofs.Text.Cut

-- The scan as a machine with a cursor: two byte offsets, two line counters and the events
-- told so far. It looks at the source only through cuts that may be refused, and it counts
-- lines and moves its offsets by hand. That it tells what a scan tells, and is never
-- refused anything, is proved of it and not built into it.
namespace ScriptLexer

inductive Refusal where
  | badCut (start stop : Nat)
  | readAtEnd
deriving DecidableEq

inductive Stage where
  | outer
  | dispatch
  | afterOperator (o : Operator)
  | afterSlash
  | lineComment
  | blockComment
  | closingSlash
  | string
  | stringCharacter
  | wholeDigits
  | fractionDigits
  | word
  | ended
deriving DecidableEq

structure Reader where
  stage : Stage
  line : Nat
  startLine : Nat
  start : Nat
  current : Nat
  told : List Event
deriving DecidableEq

namespace Reader

def initial : Reader := ⟨.outer,1,1,0,0,[]⟩

variable (source : List Char) (s : Reader)

def cut (start stop : Nat) : Except Refusal (List Char) :=
  match cut? source start stop with
  | some text => .ok text
  | none => .error (.badCut start stop)

def atEnd : Bool := byteLength source ≤ s.current

def unread : Except Refusal (List Char) := cut source s.current (byteLength source)

-- Where nothing is left a look ahead sees the null character, as it does where the source
-- holds one.
def peek : Except Refusal Char := return (← unread source s).head?.getD '\x00'

def peekNext : Except Refusal Char := return (← unread source s)[1]?.getD '\x00'

def advance : Except Refusal (Char × Reader) :=
  if atEnd source s then .error .readAtEnd
  else do
    let c ← peek source s
    return (c,{s with current := s.current + c.utf8Size})

def accept (expected : Char) : Except Refusal (Bool × Reader) :=
  if atEnd source s then return (false,s)
  else do
    let c ← peek source s
    return if c = expected then (true,{s with current := s.current + expected.utf8Size}) else (false,s)

def position (line : Nat) : Position := ⟨line,⟨s.start,s.current⟩⟩

def tell (event : Event) : Reader := {s with stage := .outer,told := s.told ++ [event]}

def lexeme : Except Refusal (List Char) := cut source s.start s.current

def tellToken (kind : TokenKind) (text : List Char) (literal : Option Literal) : Reader :=
  s.tell (.token ⟨kind,text,literal,s.position s.startLine⟩)

def addToken (kind : TokenKind) (literal : Option Literal) : Except Refusal Reader :=
  return s.tellToken kind (← lexeme source s) literal

def report (cause : LexError.Cause) : Reader := s.tell (.error ⟨cause,s.position s.line⟩)

def begin (c : Char) : Except Refusal Reader :=
  match Operator.ofChar? c with
  | some o =>
    if o = .slash then return {s with stage := .afterSlash}
    else if o.withEqual?.isSome then return {s with stage := .afterOperator o}
    else addToken source s (.operator o) none
  | none =>
    if c = ' ' ∨ c = '\r' ∨ c = '\t' then return {s with stage := .outer}
    else if c = '\n' then return {s with stage := .outer,line := s.line + 1}
    else if c = '"' then return {s with stage := .string}
    else if c.isDigit then return {s with stage := .wholeDigits}
    else if isWordStart c then return {s with stage := .word}
    else return s.report (.unexpectedCharacter c)

def endNumber : Except Refusal Reader := do
  addToken source s .number (some (.number (Grammar.numeralValue (← lexeme source s))))

def step : Except Refusal Reader :=
  match s.stage with
  | .outer =>
    let s := {s with start := s.current,startLine := s.line}
    if atEnd source s then return {← addToken source s .endOfSource none with stage := .ended}
    else return {s with stage := .dispatch}
  | .dispatch => do
    let (c,s) ← advance source s
    begin source s c
  | .afterOperator o => do
    let (joined,s) ← accept source s '='
    addToken source s (.operator (if joined then o.withEqual?.getD o else o)) none
  | .afterSlash => do
    let (line,s) ← accept source s '/'
    if line then return {s with stage := .lineComment}
    else
      let (block,s) ← accept source s '*'
      if block then return {s with stage := .blockComment} else addToken source s (.operator .slash) none
  | .lineComment => do
    if (← peek source s) ≠ '\n' ∧ ¬ atEnd source s then return (← advance source s).2
    else return {s with stage := .outer}
  | .blockComment => do
    if atEnd source s then return s.tell (.openComment s.line)
    else if (← peek source s) = '*' ∧ (← peekNext source s) = '/' then
      return {(← advance source s).2 with stage := .closingSlash}
    else
      let (c,s) ← advance source s
      return {s with line := if c = '\n' then s.line + 1 else s.line}
  | .closingSlash => return {(← advance source s).2 with stage := .outer}
  | .string => do
    let c ← peek source s
    if c ≠ '"' ∧ ¬ atEnd source s then
      return {s with stage := .stringCharacter,line := if c = '\n' then s.line + 1 else s.line}
    else if atEnd source s then return s.report .unterminatedString
    else
      let (_,s) ← advance source s
      let body ← cut source (s.start + 1) (s.current - 1)
      addToken source s .string (some (.text body))
  | .stringCharacter => return {(← advance source s).2 with stage := .string}
  | .wholeDigits => do
    if (← peek source s).isDigit then return (← advance source s).2
    else if (← peek source s) = '.' ∧ (← peekNext source s).isDigit then
      return {(← advance source s).2 with stage := .fractionDigits}
    else endNumber source s
  | .fractionDigits => do
    if (← peek source s).isDigit then return (← advance source s).2 else endNumber source s
  | .word => do
    if isWordPart (← peek source s) then return (← advance source s).2
    else addToken source s (.ofWord (← lexeme source s)) none
  | .ended => return s

end Reader

end ScriptLexer
