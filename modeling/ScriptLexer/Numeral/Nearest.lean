import ScriptLexer.Numeral.Decimal
import ScriptLexer.Numeral.Binary64

namespace ScriptLexer

def roundHalfEven (numerator denominator : Nat) : Nat :=
  let below := numerator / denominator
  let twice := 2 * (numerator % denominator)
  if twice < denominator then below
  else if denominator < twice then below + 1
  else below + below % 2

-- The rank of the magnitude nearest to a fraction, ties to the even significand.
-- `binades` is how often the steps of two to the power -1074 must double before the
-- quotient fits the fifty-three bits of a significand. A significand that rounds up
-- to the next power of two carries into the exponent by addition alone.
def nearestRank (numerator denominator : Nat) : Nat :=
  let scaled := numerator <<< 1074
  let binades := Nat.log2 (scaled / denominator) - 52
  min (binades * Binary64.fractionCount + roundHalfEven scaled (denominator <<< binades))
    Binary64.infinityRank

def Decimal.nearestRank (d : Decimal) : Nat := ScriptLexer.nearestRank d.units (Nat.pow 10 d.places)

def Decimal.toBinary64 (d : Decimal) : Binary64 := .ofRank d.nearestRank

end ScriptLexer
