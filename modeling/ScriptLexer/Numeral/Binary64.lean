namespace ScriptLexer

-- A binary64 number by its bits: the sign, eleven bits of exponent and fifty-two of
-- fraction. Below the sign the bits of the finite numbers count their magnitudes in
-- increasing order from zero, so this count is what rounding works with.
structure Binary64 where
  bits : UInt64
deriving DecidableEq

namespace Binary64

def fractionCount : Nat := 4503599627370496

def signBit : Nat := 9223372036854775808

def infinityRank : Nat := 2047 * fractionCount

def rank (x : Binary64) : Nat := x.bits.toNat % signBit

def isNegative (x : Binary64) : Bool := signBit ≤ x.bits.toNat

def isNaN (x : Binary64) : Bool := infinityRank < x.rank

def isFinite (x : Binary64) : Bool := x.rank < infinityRank

def ofRank (rank : Nat) : Binary64 := ⟨UInt64.ofNat rank⟩

-- A finite magnitude is its significand in steps of two to the power -1074, the steps
-- doubled with every exponent but the first: there the implicit leading bit is missing.
def significand (rank : Nat) : Nat :=
  if rank < fractionCount then rank else fractionCount + rank % fractionCount

def doublings (rank : Nat) : Nat := rank / fractionCount - 1

def stepsOfRank (rank : Nat) : Nat := significand rank <<< doublings rank

def agrees (x y : Binary64) : Bool :=
  !x.isNaN && !y.isNaN && (x.bits == y.bits || (x.rank == 0 && y.rank == 0))

end Binary64

end ScriptLexer
