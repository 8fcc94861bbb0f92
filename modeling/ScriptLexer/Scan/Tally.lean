import ScriptLexer.Scan.Basic

namespace ScriptLexer

-- Where errors go: a count that decides how a run ends, and the errors themselves. A
-- scan writes to a tally and never reads it.
structure Tally where
  count : Nat
  collected : List LexError
deriving DecidableEq

inductive Tally.Step where
  | report (error : LexError)
  | scan (source : List Char)
deriving DecidableEq

namespace Tally

def empty : Tally := ⟨0,[]⟩

def report (tally : Tally) (error : LexError) : Tally :=
  ⟨tally.count + 1,tally.collected ++ [error]⟩

def hadError (tally : Tally) : Bool := 0 < tally.count

def scan (tally : Tally) (source : List Char) : List Token × Tally :=
  let result := ScriptLexer.scan source
  (result.tokens,result.errors.foldl report tally)

def advance (tally : Tally) : Step → Tally
  | .report error => tally.report error
  | .scan source => (tally.scan source).2

end Tally

end ScriptLexer
