import ScriptLexer.Numeral.Nearest

namespace ScriptLexer

namespace Binary64

-- A finite magnitude has an end as a decimal: so many places behind the point, one for
-- every halving that its steps are still below one.
def exactPlaces (rank : Nat) : Nat := 1074 - doublings rank

def exactUnits (rank : Nat) : Nat :=
  (significand rank <<< (doublings rank - 1074)) * Nat.pow 5 (exactPlaces rank)

def onGrid (places count dropped : Nat) : Decimal :=
  ⟨count * Nat.pow 10 (dropped - places),places - dropped⟩

-- The two neighbours of the exact value on one grid: the nearer of those that read
-- back as the same number, the upper one halfway between.
def readingBack? (rank dropped : Nat) : Option Decimal :=
  let exact := exactUnits rank
  let step := Nat.pow 10 dropped
  let below := onGrid (exactPlaces rank) (exact / step) dropped
  let above := onGrid (exactPlaces rank) (exact / step + 1) dropped
  if below.nearestRank = rank ∧ (above.nearestRank ≠ rank ∨ 2 * (exact % step) < step) then
    some below
  else if above.nearestRank = rank then some above
  else none

def shortestFrom (rank : Nat) : Nat → Decimal
  | 0 => ⟨exactUnits rank,exactPlaces rank⟩
  | dropped + 1 => (readingBack? rank (dropped + 1)).getD (shortestFrom rank dropped)

def shortest (rank : Nat) : Decimal :=
  shortestFrom rank ((Nat.toDigits 10 (exactUnits rank)).length - 1)

def text (x : Binary64) : List Char :=
  if x.isNaN then ['N','a','N']
  else
    let magnitude := if x.isFinite then (shortest x.rank).text else ['i','n','f']
    if x.isNegative then '-' :: magnitude else magnitude

end Binary64

end ScriptLexer
