import Mathlib
import ScriptLexer.Numeral.Nearest

namespace ScriptLexer

namespace Binary64

-- The magnitudes of one binade are the multiples of its step. The significand may reach
-- the next power of two: there the same number also begins the binade above.
theorem stepsOfRank_grid {binade n : Nat} (fits : n ≤ 2 * fractionCount)
    (leading : binade = 0 ∨ fractionCount ≤ n) :
    stepsOfRank (binade * fractionCount + n) = n * 2 ^ binade := by
  unfold stepsOfRank
  rw [Nat.shiftLeft_eq]
  by_cases subnormal : binade * fractionCount + n < fractionCount
  · have first : binade = 0 := by
      simp only [fractionCount] at subnormal leading
      omega
    have undoubled : doublings (binade * fractionCount + n) = 0 := by
      simp only [doublings,Nat.div_eq_of_lt subnormal]
    rw [significand,if_pos subnormal,undoubled,first,Nat.zero_mul,Nat.zero_add]
  · have significant : significand (binade * fractionCount + n) =
        fractionCount + (binade * fractionCount + n) % fractionCount := if_neg subnormal
    rw [significant]
    rcases Nat.lt_or_eq_of_le fits with inside | carried
    · have exponent : doublings (binade * fractionCount + n) = binade := by
        simp only [doublings,fractionCount] at *
        omega
      have leads : fractionCount + (binade * fractionCount + n) % fractionCount = n := by
        simp only [fractionCount] at *
        omega
      rw [exponent,leads]
    · have exponent : doublings (binade * fractionCount + n) = binade + 1 := by
        simp only [doublings,fractionCount] at *
        omega
      have leads : 2 * (fractionCount + (binade * fractionCount + n) % fractionCount) = n := by
        simp only [fractionCount] at *
        omega
      rw [exponent,pow_succ',← mul_assoc,mul_comm _ 2,leads]

theorem rank_grid (rank : Nat) :
    ∃ binade n, rank = binade * fractionCount + n ∧ n < 2 * fractionCount ∧
      (binade = 0 ∨ fractionCount ≤ n) := by
  refine ⟨rank / fractionCount - 1,rank - (rank / fractionCount - 1) * fractionCount,?_⟩
  simp only [fractionCount]
  omega

theorem stepsOfRank_lt_succ (rank : Nat) : stepsOfRank rank < stepsOfRank (rank + 1) := by
  obtain ⟨binade,n,rfl,inside,leading⟩ := rank_grid rank
  rw [stepsOfRank_grid inside.le leading,Nat.add_assoc,
    stepsOfRank_grid inside (leading.imp_right Nat.le_succ_of_le)]
  exact Nat.mul_lt_mul_of_pos_right (Nat.lt_succ_self n) (Nat.two_pow_pos binade)

theorem stepsOfRank_strictMono : StrictMono stepsOfRank := strictMono_nat_of_lt_succ stepsOfRank_lt_succ

theorem even_grid {binade n : Nat} : Even (binade * fractionCount + n) ↔ Even n := by
  have count : Even fractionCount := by decide
  simp [Nat.even_add,count.mul_left binade]

-- The number that a rank counts. The rank of infinity counts on, to two to the power 1024.
def magnitude (rank : Nat) : ℚ := stepsOfRank rank / 2 ^ 1074

def midpoint (rank : Nat) : ℚ := (magnitude rank + magnitude (rank + 1)) / 2

def spacing (binade : Nat) : ℚ := 2 ^ binade / 2 ^ 1074

theorem spacing_pos (binade : Nat) : 0 < spacing binade := by
  unfold spacing
  positivity

theorem spacing_succ (binade : Nat) : spacing (binade + 1) = 2 * spacing binade := by
  rw [spacing,spacing,pow_succ',mul_div_assoc]

theorem magnitude_strictMono : StrictMono magnitude := by
  intro rank other less
  have steps : (stepsOfRank rank : ℚ) < stepsOfRank other := mod_cast stepsOfRank_strictMono less
  exact div_lt_div_of_pos_right steps (by positivity)

theorem magnitude_zero : magnitude 0 = 0 := by
  simp [magnitude,stepsOfRank,significand,fractionCount]

theorem magnitude_nonneg (rank : Nat) : 0 ≤ magnitude rank :=
  magnitude_zero.ge.trans (magnitude_strictMono.monotone (Nat.zero_le rank))

theorem midpoint_strictMono : StrictMono midpoint := by
  intro rank other less
  have first := magnitude_strictMono less
  have second := magnitude_strictMono (Nat.succ_lt_succ less)
  unfold midpoint
  linarith

theorem magnitude_grid {binade n : Nat} (fits : n ≤ 2 * fractionCount)
    (leading : binade = 0 ∨ fractionCount ≤ n) :
    magnitude (binade * fractionCount + n) = n * spacing binade := by
  rw [magnitude,stepsOfRank_grid fits leading,spacing,Nat.cast_mul,Nat.cast_pow,Nat.cast_ofNat,
    mul_div_assoc]

theorem midpoint_lt_magnitude {rank other : Nat} (below : rank < other) :
    midpoint rank < magnitude other := by
  have next := magnitude_strictMono (Nat.lt_succ_self rank)
  have order := magnitude_strictMono.monotone (Nat.succ_le_of_lt below)
  unfold midpoint
  linarith

theorem magnitude_lt_midpoint {rank other : Nat} (reached : other ≤ rank) :
    magnitude other < midpoint rank := by
  have next := magnitude_strictMono (Nat.lt_succ_self rank)
  have order := magnitude_strictMono.monotone reached
  unfold midpoint
  linarith

end Binary64

end ScriptLexer
