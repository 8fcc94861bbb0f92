import Mathlib
import ScriptLexer.Proofs.Numeral.Fewest

-- With up to fifteen digits a decimal is the only one that reads back as its number, if
-- this number is not one of those below the least normal one.
namespace ScriptLexer

namespace Binary64

variable {rank binade n : Nat} {d e : Decimal}

theorem magnitude_before (previous : rank + 1 = binade * fractionCount + n) (inside : n < 2 * fractionCount)
    (normal : fractionCount ≤ n) : (n - 1) * spacing binade ≤ magnitude rank := by
  have least : 1 ≤ n := le_trans (by decide) normal
  by_cases same : binade = 0 ∨ fractionCount ≤ n - 1
  · have place : rank = binade * fractionCount + (n - 1) := by omega
    rw [place,magnitude_grid (by omega) same,Nat.cast_sub least,Nat.cast_one]
  · obtain ⟨before,rfl⟩ := Nat.exists_eq_add_one_of_ne_zero (not_or.mp same).1
    have first : n = fractionCount := by omega
    have place : rank = before * fractionCount + (2 * fractionCount - 1) := by
      rw [first,add_one_mul] at previous
      omega
    have positive := spacing_pos before
    rw [place,magnitude_grid (by omega) (.inr (by decide)),spacing_succ,first,fractionCount]
    norm_num
    linarith

theorem reads_midpoints (reads : d.nearestRank = rank + 1) (finite : rank + 1 < infinityRank) :
    midpoint rank ≤ d.value ∧ d.value ≤ midpoint (rank + 1) := by
  rw [d.value_quotient]
  constructor
  · have past := (lt_nearestRank_iff d.denominator_pos (Nat.lt_of_succ_lt finite)).mp
      ((Nat.lt_succ_self rank).trans_eq reads.symm)
    exact past.elim le_of_lt fun tie => tie.1.le
  · have stops := (lt_nearestRank_iff d.denominator_pos finite).not.mp reads.not_gt
    exact le_of_not_gt (not_or.mp stops).1

theorem reads_near (normal : fractionCount ≤ d.nearestRank) (finite : d.nearestRank < infinityRank)
    (reads : e.nearestRank = d.nearestRank) :
    ∃ step : ℚ, 0 < step ∧ e.value - d.value ≤ step ∧ (fractionCount - 1) * step ≤ d.value := by
  obtain ⟨binade,n,place,inside,leading⟩ := rank_grid d.nearestRank
  have first : fractionCount ≤ n := by
    rcases leading with lowest | reached
    · simpa [place,lowest] using normal
    · exact reached
  obtain ⟨before,previous⟩ : ∃ before, d.nearestRank = before + 1 :=
    Nat.exists_eq_add_one_of_ne_zero (Nat.ne_of_gt (Nat.lt_of_lt_of_le (by decide) normal))
  have positive := spacing_pos binade
  have low := magnitude_before (previous.symm.trans place) inside first
  have here : magnitude (before + 1) = n * spacing binade := by
    rw [← previous,place,magnitude_grid inside.le leading]
  have high : magnitude (before + 1 + 1) = (n + 1) * spacing binade := by
    rw [← previous,place,Nat.add_assoc,magnitude_grid inside (leading.imp_right Nat.le_succ_of_le),Nat.cast_succ]
  rw [previous] at finite reads
  obtain ⟨above,_⟩ := reads_midpoints previous finite
  obtain ⟨_,below⟩ := reads_midpoints reads finite
  have size : (fractionCount : ℚ) * spacing binade ≤ n * spacing binade := by
    gcongr
  rw [midpoint,high,here] at below
  rw [midpoint,here] at above
  exact ⟨spacing binade,positive,by linarith,by linarith⟩

theorem fifteen_apart (normal : fractionCount ≤ d.nearestRank) (finite : d.nearestRank < infinityRank)
    (reads : e.nearestRank = d.nearestRank) (first : HasDigits d.value 15) (second : HasDigits e.value 15) :
    ¬ d.value < e.value := by
  intro less
  have positive := reads_pos (Nat.lt_of_lt_of_le (by decide) normal) (rfl : d.nearestRank = _)
  obtain ⟨step,forward,near,small⟩ := reads_near normal finite reads
  obtain ⟨place,low,high⟩ := exists_mem_Ico_zpow positive (show (1 : ℚ) < 10 by norm_num)
  obtain ⟨a,one⟩ := first.on_grid low
  obtain ⟨b,other⟩ := second.on_grid (low.trans less.le)
  have scale : (0 : ℚ) < 10 ^ (place + 1 - (15 : Nat) : ℤ) := by positivity
  have reach : (10 : ℚ) ^ (place + 1) = 10 ^ 15 * 10 ^ (place + 1 - (15 : Nat) : ℤ) := by
    rw [← zpow_natCast,← zpow_add₀ (by norm_num),add_sub_cancel]
  rw [reach] at high
  generalize (10 : ℚ) ^ (place + 1 - (15 : Nat) : ℤ) = grid at *
  have apart : (a : ℚ) + 1 ≤ b := by
    rw [one,other] at less
    exact mod_cast lt_of_mul_lt_mul_right less scale.le
  have wide : grid ≤ e.value - d.value :=
    calc grid = (a + 1) * grid - a * grid := by ring
      _ ≤ b * grid - a * grid := sub_le_sub_right (mul_le_mul_of_nonneg_right apart scale.le) _
      _ = e.value - d.value := by rw [one,other]
  simp only [fractionCount] at small
  push_cast at small
  linarith

theorem fifteen_digits (normal : fractionCount ≤ d.nearestRank) (finite : d.nearestRank < infinityRank)
    (reads : e.nearestRank = d.nearestRank) (first : HasDigits d.value 15) (second : HasDigits e.value 15) :
    e.value = d.value := by
  refine le_antisymm ?_ ?_
  · exact le_of_not_gt (fifteen_apart normal finite reads first second)
  · rw [← reads] at normal finite
    exact le_of_not_gt (fifteen_apart normal finite reads.symm second first)

theorem normal_of_value (large : 1 / 2 ^ 1022 ≤ d.value) : fractionCount ≤ d.nearestRank := by
  have fits : fractionCount ≤ infinityRank := by decide
  have least : magnitude fractionCount = 1 / 2 ^ 1022 := by
    have grid := @magnitude_grid 0 fractionCount (by decide) (.inl rfl)
    have count : (fractionCount : ℚ) = 2 ^ 52 := by norm_num [fractionCount]
    have exponent : (2 : ℚ) ^ 1074 = 2 ^ 52 * 2 ^ 1022 := by rw [← pow_add]
    rw [Nat.zero_mul,Nat.zero_add,spacing,pow_zero,count,exponent,mul_one_div,div_mul_eq_div_div,
      div_self (by positivity)] at grid
    exact grid
  have reads := Decimal.nearestRank_mono ((exact_value fractionCount).trans_le (least.trans_le large))
  rwa [exact_reads fits] at reads

theorem shortest_exact (finite : d.nearestRank < infinityRank) (digits : HasDigits d.value 15)
    (size : d.value = 0 ∨ 1 / 2 ^ 1022 ≤ d.value) : (shortest d.nearestRank).value = d.value := by
  rcases size with zeroValue | large
  · have zero : d.nearestRank = 0 := by
      by_contra notZero
      exact (reads_pos (Nat.pos_of_ne_zero notZero) rfl).ne' zeroValue
    rw [zero,shortest_zero,zeroValue]
  · exact fifteen_digits (normal_of_value large) finite (shortestFrom_reads finite.le _) digits
      (shortest_fewest finite.le digits)

end Binary64

end ScriptLexer
