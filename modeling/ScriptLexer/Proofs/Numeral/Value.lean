import Mathlib
import ScriptLexer.Proofs.Numeral.Rounding

namespace ScriptLexer

namespace Binary64

-- The number that bits stand for, by the formula of the format: nothing here counts
-- ranks. The least exponent has no leading bit and the scale of the one above it.
def fractionField (x : Binary64) : Nat := x.bits.toNat % 2 ^ 52

def exponentField (x : Binary64) : Nat := x.bits.toNat / 2 ^ 52 % 2 ^ 11

def mantissa (x : Binary64) : Nat :=
  if x.exponentField = 0 then x.fractionField else 2 ^ 52 + x.fractionField

def value (x : Binary64) : ℚ :=
  (if x.isNegative then -1 else 1) * (x.mantissa * 2 ^ ((max x.exponentField 1 : ℤ) - 1075))

structure IsNearest (q : ℚ) (x : Binary64) : Prop where
  finite : x.isFinite = true
  least : ∀ y : Binary64, y.isFinite = true → |q - x.value| ≤ |q - y.value|
  even : ∀ y : Binary64, y.isFinite = true → |q - x.value| = |q - y.value| →
    y.value = x.value ∨ Even x.mantissa

-- Correct rounding of a number that is not negative. The two thresholds lie halfway from
-- the largest finite number to the power of two above it, and from zero to the smallest.
structure IsRounded (q : ℚ) (x : Binary64) : Prop where
  notNaN : x.isNaN = false
  notNegative : x.isNegative = false
  infinite : x.bits = 0x7FF0000000000000 ↔ 2 ^ 1024 - 2 ^ 970 ≤ q
  zero : x.bits = 0 ↔ q ≤ 1 / 2 ^ 1075
  nearest : q < 2 ^ 1024 - 2 ^ 970 → IsNearest q x

theorem mantissa_lt (x : Binary64) : x.mantissa < 2 * fractionCount := by
  unfold mantissa fractionField fractionCount
  split <;> omega

theorem mantissa_leads (x : Binary64) : max x.exponentField 1 - 1 = 0 ∨ fractionCount ≤ x.mantissa := by
  unfold mantissa fractionCount
  split <;> omega

theorem rank_fields (x : Binary64) :
    x.rank = (max x.exponentField 1 - 1) * fractionCount + x.mantissa := by
  unfold rank mantissa exponentField fractionField fractionCount signBit
  split <;> omega

theorem even_mantissa (x : Binary64) : Even x.mantissa ↔ Even x.rank := by
  rw [rank_fields,even_grid]

theorem value_rank (x : Binary64) : x.value = (if x.isNegative then -1 else 1) * magnitude x.rank := by
  have scale : spacing (max x.exponentField 1 - 1) = 2 ^ ((max x.exponentField 1 : ℤ) - 1075) := by
    have exponent : (max x.exponentField 1 : ℤ) - 1075 = (max x.exponentField 1 - 1 : Nat) - (1074 : Nat) := by
      omega
    rw [exponent,zpow_sub₀ two_ne_zero,zpow_natCast,zpow_natCast,spacing]
  rw [rank_fields,magnitude_grid x.mantissa_lt.le x.mantissa_leads,scale,value]

theorem value_cases (x : Binary64) : x.value = magnitude x.rank ∨ x.value = -magnitude x.rank := by
  rw [value_rank]
  split
  · exact .inr (neg_one_mul _)
  · exact .inl (one_mul _)

theorem ofRank_toNat {rank : Nat} (fits : rank ≤ infinityRank) : (ofRank rank).bits.toNat = rank :=
  UInt64.toNat_ofNat_of_lt' (fits.trans_lt (by decide))

theorem ofRank_rank {rank : Nat} (fits : rank ≤ infinityRank) : (ofRank rank).rank = rank := by
  rw [Binary64.rank,ofRank_toNat fits]
  exact Nat.mod_eq_of_lt (fits.trans_lt (by decide))

theorem ofRank_notNegative {rank : Nat} (fits : rank ≤ infinityRank) : (ofRank rank).isNegative = false := by
  rw [isNegative,ofRank_toNat fits]
  exact decide_eq_false (not_le.mpr (fits.trans_lt (by decide)))

theorem ofRank_value {rank : Nat} (fits : rank ≤ infinityRank) : (ofRank rank).value = magnitude rank := by
  rw [value_rank,ofRank_rank fits,ofRank_notNegative fits]
  simp

theorem ofRank_bits {rank other : Nat} (fits : rank ≤ infinityRank) (bounded : other ≤ infinityRank) :
    (ofRank rank).bits = (ofRank other).bits ↔ rank = other := by
  rw [← UInt64.toNat_inj,ofRank_toNat fits,ofRank_toNat bounded]

theorem ofRank_isNearest {numerator denominator : Nat} (positive : 0 < denominator)
    (finite : nearestRank numerator denominator < infinityRank) :
    IsNearest (numerator / denominator) (ofRank (nearestRank numerator denominator)) := by
  have law := nearestRank_nearest positive finite
  have quotient : (0 : ℚ) ≤ numerator / denominator := by positivity
  dsimp only at law
  generalize nearestRank numerator denominator = chosen at *
  generalize (numerator / denominator : ℚ) = q at *
  have here := ofRank_value finite.le
  have origin := law 0
  rw [magnitude_zero,sub_zero,abs_of_nonneg quotient] at origin
  refine ⟨?_,?_,?_⟩
  · rw [isFinite,ofRank_rank finite.le]
    exact decide_eq_true finite
  · intro y _
    have size := magnitude_nonneg y.rank
    rw [here]
    rcases value_cases y with plus | minus
    · rw [plus]
      exact (law y.rank).1
    · rw [minus,sub_neg_eq_add,abs_of_nonneg (add_nonneg quotient size)]
      linarith [origin.1]
  · intro y _ tie
    have size := magnitude_nonneg y.rank
    rw [even_mantissa,ofRank_rank finite.le,here]
    rw [here] at tie
    rcases value_cases y with plus | minus
    · rw [plus] at tie ⊢
      exact ((law y.rank).2 tie).imp_left (congrArg magnitude)
    · -- As near as zero is only zero itself.
      rw [minus,sub_neg_eq_add,abs_of_nonneg (add_nonneg quotient size)] at tie
      have zero : magnitude y.rank = 0 := le_antisymm (by linarith [origin.1]) size
      rw [minus,zero,neg_zero,← magnitude_zero]
      rw [zero,add_zero] at tie
      exact (origin.2 tie).imp_left (congrArg magnitude)

theorem ofRank_isRounded {numerator denominator : Nat} (positive : 0 < denominator) :
    IsRounded (numerator / denominator) (ofRank (nearestRank numerator denominator)) := by
  have fits := nearestRank_le numerator denominator
  refine ⟨?_,ofRank_notNegative fits,?_,?_,?_⟩
  · rw [isNaN,ofRank_rank fits]
    exact decide_eq_false fits.not_gt
  · rw [← nearestRank_eq_infinity positive]
    exact ofRank_bits fits le_rfl
  · rw [← nearestRank_eq_zero positive]
    exact ofRank_bits fits (Nat.zero_le _)
  · intro under
    rw [← not_le,← nearestRank_eq_infinity positive] at under
    exact ofRank_isNearest positive (lt_of_le_of_ne fits under)

end Binary64

end ScriptLexer
