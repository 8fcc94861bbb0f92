import Mathlib
import ScriptLexer.Numeral.Shortest
import ScriptLexer.Proofs.Numeral.Decimal

namespace ScriptLexer

theorem Decimal.nearestRank_of_value {d e : Decimal} (same : d.value = e.value) :
    d.nearestRank = e.nearestRank := by
  rw [value_quotient,value_quotient] at same
  exact Binary64.nearestRank_congr d.denominator_pos e.denominator_pos same

namespace Binary64

theorem exact_value (rank : Nat) : (⟨exactUnits rank,exactPlaces rank⟩ : Decimal).value = magnitude rank := by
  have ten : (10 : ℚ) = 2 * 5 := by norm_num
  unfold Decimal.value exactUnits magnitude stepsOfRank
  rw [cast_shiftLeft,Nat.cast_mul,cast_shiftLeft,Nat.pow_eq,Nat.cast_pow,Nat.cast_ofNat,ten,mul_pow,
    mul_div_mul_right _ _ (by positivity),div_eq_div_iff (by positivity) (by positivity),mul_assoc,mul_assoc,
    ← pow_add,← pow_add]
  have exponents : doublings rank - 1074 + 1074 = doublings rank + exactPlaces rank := by
    unfold exactPlaces
    omega
  rw [exponents]

theorem readingBack_reads {rank dropped : Nat} {d : Decimal} (found : readingBack? rank dropped = some d) :
    d.nearestRank = rank := by
  unfold readingBack? at found
  dsimp only at found
  split at found
  · rename_i below
    cases found
    exact below.1
  · split at found
    · rename_i above
      cases found
      exact above
    · cases found

theorem shortestFrom_reads {rank : Nat} (fits : rank ≤ infinityRank) (dropped : Nat) :
    (shortestFrom rank dropped).nearestRank = rank := by
  induction dropped with
  | zero =>
    -- On the finest grid lies the exact value itself.
    have exact := exact_value rank
    rw [Decimal.value_quotient] at exact
    exact nearestRank_magnitude (Decimal.denominator_pos _) fits exact
  | succ dropped ih =>
    unfold shortestFrom
    cases found : readingBack? rank (dropped + 1) with
    | none => exact ih
    | some d => exact readingBack_reads found

theorem shortest_reads {rank : Nat} (fits : rank ≤ infinityRank) :
    (Decimal.ofDigits (shortest rank).wholeDigits (shortest rank).fractionDigits).toBinary64 = ofRank rank := by
  unfold Decimal.toBinary64
  rw [Decimal.nearestRank_of_value (shortest rank).value_digits,shortest,shortestFrom_reads fits]

end Binary64

end ScriptLexer
