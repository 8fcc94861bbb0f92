import Mathlib
import ScriptLexer.Proofs.Numeral.Digits
import ScriptLexer.Proofs.Numeral.ReadBack

namespace ScriptLexer

namespace Decimal

variable {d e low high : Decimal} {rank : Nat}

theorem nearestRank_mono (order : d.value ≤ e.value) : d.nearestRank ≤ e.nearestRank := by
  by_contra more
  have less := lt_of_not_ge more
  have finite : e.nearestRank < Binary64.infinityRank := less.trans_le (Binary64.nearestRank_le _ _)
  have past := (Binary64.lt_nearestRank_iff d.denominator_pos finite).mp less
  rw [← d.value_quotient] at past
  have further : e.nearestRank < e.nearestRank := by
    refine (Binary64.lt_nearestRank_iff e.denominator_pos finite).mpr ?_
    rw [← e.value_quotient]
    rcases past with beyond | ⟨tie,even⟩
    · exact .inl (beyond.trans_le order)
    · exact (tie.le.trans order).lt_or_eq.imp_right fun same => ⟨same,even⟩
  exact absurd further (lt_irrefl _)

theorem nearestRank_between (first : low.nearestRank = rank) (last : high.nearestRank = rank)
    (above : low.value ≤ d.value) (below : d.value ≤ high.value) : d.nearestRank = rank :=
  le_antisymm ((nearestRank_mono below).trans_eq last) (first.symm.trans_le (nearestRank_mono above))

end Decimal

namespace Binary64

def gridStep (rank dropped : Nat) : ℚ := 10 ^ (dropped - exactPlaces rank : ℤ)

section Grids

variable {rank dropped top : Nat} {d : Decimal}

theorem gridStep_pos (rank dropped : Nat) : 0 < gridStep rank dropped := by
  unfold gridStep
  positivity

theorem gridStep_quotient (rank dropped : Nat) : gridStep rank dropped = 10 ^ dropped / 10 ^ exactPlaces rank := by
  rw [gridStep,zpow_sub₀ (by norm_num),zpow_natCast,zpow_natCast]

theorem ten_gridStep (rank dropped : Nat) :
    10 * gridStep rank dropped = 10 ^ (dropped - exactPlaces rank + 1 : ℤ) := by
  rw [gridStep,zpow_add_one₀ (by norm_num),mul_comm]

theorem magnitude_quotient (rank : Nat) : magnitude rank = exactUnits rank / 10 ^ exactPlaces rank :=
  (exact_value rank).symm

theorem onGrid_value (count : Nat) :
    (onGrid (exactPlaces rank) count dropped).value = count * gridStep rank dropped := by
  have ten : (10 : ℚ) ≠ 0 := by norm_num
  simp only [onGrid,Decimal.value,gridStep,Nat.pow_eq]
  rw [Nat.cast_mul,Nat.cast_pow,Nat.cast_ofNat,mul_div_assoc,← zpow_natCast,← zpow_natCast,← zpow_sub₀ ten]
  congr 2
  omega

theorem exact_reads (fits : rank ≤ infinityRank) :
    (⟨exactUnits rank,exactPlaces rank⟩ : Decimal).nearestRank = rank :=
  shortestFrom_reads fits 0

theorem magnitude_between (rank dropped : Nat) :
    (exactUnits rank / 10 ^ dropped : Nat) * gridStep rank dropped ≤ magnitude rank ∧
      magnitude rank < (exactUnits rank / 10 ^ dropped + 1 : Nat) * gridStep rank dropped := by
  have scale : (0 : ℚ) < (10 : ℚ) ^ exactPlaces rank := by positivity
  rw [gridStep_quotient,magnitude_quotient,← mul_div_assoc,← mul_div_assoc]
  constructor
  · refine div_le_div_of_nonneg_right ?_ scale.le
    exact mod_cast Nat.div_mul_le_self _ _
  · refine div_lt_div_of_pos_right ?_ scale
    exact mod_cast (Nat.div_lt_iff_lt_mul (by positivity)).mp (Nat.lt_succ_self _)

theorem readingBack_some (fits : rank ≤ infinityRank) (reads : d.nearestRank = rank) {count : Nat}
    (placed : d.value = count * gridStep rank dropped) : readingBack? rank dropped ≠ none := by
  obtain ⟨low,high⟩ := magnitude_between rank dropped
  have exact := exact_value rank
  have positive := gridStep_pos rank dropped
  intro refused
  unfold readingBack? at refused
  dsimp only at refused
  split_ifs at refused with first second
  rw [Nat.pow_eq] at first second
  rcases Nat.lt_or_ge (exactUnits rank / 10 ^ dropped) count with past | short
  · refine second (Decimal.nearestRank_between (exact_reads fits) reads ?_ ?_)
    · rw [exact,onGrid_value]
      exact high.le
    · rw [onGrid_value,placed]
      gcongr
      exact past
  · refine first ⟨Decimal.nearestRank_between reads (exact_reads fits) ?_ ?_,.inl second⟩
    · rw [onGrid_value,placed]
      gcongr
    · rw [exact,onGrid_value]
      exact low

structure Chosen (rank dropped : Nat) (d : Decimal) (count : Nat) : Prop where
  placed : d.value = count * gridStep rank dropped
  near : d.value ≤ magnitude rank + gridStep rank dropped

theorem readingBack_chosen (found : readingBack? rank dropped = some d) :
    ∃ count, Chosen rank dropped d count := by
  obtain ⟨low,_⟩ := magnitude_between rank dropped
  have positive := gridStep_pos rank dropped
  unfold readingBack? at found
  dsimp only at found
  rw [Nat.pow_eq] at found
  split at found
  · obtain rfl := Option.some.inj found
    exact ⟨_,onGrid_value _,by rw [onGrid_value]; linarith⟩
  · split at found
    · obtain rfl := Option.some.inj found
      refine ⟨_,onGrid_value _,?_⟩
      rw [onGrid_value,Nat.cast_succ,add_one_mul]
      linarith
    · cases found

theorem shortestFrom_chosen (fits : rank ≤ infinityRank) (top : Nat) :
    ∃ dropped ≤ top, ∃ count, Chosen rank dropped (shortestFrom rank top) count ∧
      ∀ other ≤ top, ∀ (d : Decimal) (n : Nat), d.nearestRank = rank → d.value = n * gridStep rank other →
        other ≤ dropped := by
  induction top with
  | zero =>
    have placed : (shortestFrom rank 0).value = exactUnits rank * gridStep rank 0 := by
      have finest := @onGrid_value rank 0 (exactUnits rank)
      simpa [onGrid,shortestFrom] using finest
    refine ⟨0,le_rfl,exactUnits rank,⟨placed,?_⟩,fun other fits _ _ _ _ => fits⟩
    rw [show (shortestFrom rank 0).value = magnitude rank from exact_value rank]
    exact le_add_of_nonneg_right (gridStep_pos rank 0).le
  | succ top ih =>
    unfold shortestFrom
    cases found : readingBack? rank (top + 1) with
    | some d =>
      obtain ⟨count,chosen⟩ := readingBack_chosen found
      exact ⟨top + 1,le_rfl,count,chosen,fun other bound _ _ _ _ => bound⟩
    | none =>
      obtain ⟨dropped,bound,count,chosen,coarsest⟩ := ih
      refine ⟨dropped,bound.trans (Nat.le_succ top),count,chosen,fun other below d n reads placed => ?_⟩
      rcases Nat.lt_or_eq_of_le below with earlier | rfl
      · exact coarsest other (Nat.le_of_lt_succ earlier) d n reads placed
      · exact absurd found (readingBack_some fits reads placed)

end Grids

def topGrid (rank : Nat) : Nat := (Nat.toDigits 10 (exactUnits rank)).length - 1

section Fewest

variable {rank count : Nat} {d : Decimal}

theorem magnitude_top (notZero : 0 < rank) :
    gridStep rank (topGrid rank) ≤ magnitude rank ∧ magnitude rank < 10 * gridStep rank (topGrid rank) := by
  have scale : (0 : ℚ) < (10 : ℚ) ^ exactPlaces rank := by positivity
  have units : 0 < exactUnits rank := by
    have positive := magnitude_zero.ge.trans_lt (magnitude_strictMono notZero)
    rw [magnitude_quotient,div_pos_iff_of_pos_right scale] at positive
    exact mod_cast positive
  have length : (Nat.toDigits 10 (exactUnits rank)).length = topGrid rank + 1 :=
    (Nat.succ_pred_eq_of_pos (List.length_pos_iff.mpr Nat.toDigits_ne_nil)).symm
  have above : exactUnits rank < 10 ^ (topGrid rank + 1) :=
    (Nat.length_toDigits_le_iff (by decide) (Nat.succ_pos _)).mp length.le
  have below : 10 ^ topGrid rank ≤ exactUnits rank := by
    cases top : topGrid rank with
    | zero => exact units
    | succ before =>
      by_contra less
      have shorter := (Nat.length_toDigits_le_iff (by decide) (Nat.succ_pos before)).mpr (Nat.lt_of_not_ge less)
      omega
  rw [gridStep_quotient,magnitude_quotient,← mul_div_assoc,← pow_succ']
  exact ⟨div_le_div_of_nonneg_right (mod_cast below) scale.le,div_lt_div_of_pos_right (mod_cast above) scale⟩

-- What is shown lies on a grid at least as coarse as any that holds a decimal reading back,
-- up to the one for the first digit alone.
theorem shortest_chosen (fits : rank ≤ infinityRank) :
    ∃ dropped ≤ topGrid rank, ∃ steps, Chosen rank dropped (shortest rank) steps ∧
      ∀ place ≤ (topGrid rank - exactPlaces rank : ℤ), ∀ (d : Decimal) (n : Nat), d.nearestRank = rank →
        d.value = n * 10 ^ place → place ≤ dropped - exactPlaces rank := by
  obtain ⟨dropped,bound,steps,chosen,coarsest⟩ := shortestFrom_chosen fits (topGrid rank)
  refine ⟨dropped,bound,steps,chosen,fun place above d n reads placed => ?_⟩
  by_cases finer : place + exactPlaces rank ≤ 0
  · omega
  · have grid : gridStep rank (place + exactPlaces rank).toNat = 10 ^ place := by
      unfold gridStep
      congr 1
      omega
    have stops := coarsest (place + exactPlaces rank).toNat (by omega) d n reads (by rw [grid,placed])
    omega

-- A decimal that reads back from below the first digit, or from above it, has a power of
-- ten between it and the magnitude.
theorem shortest_single (notZero : 0 < rank) (fits : rank ≤ infinityRank) (reads : d.nearestRank = rank)
    (apart : d.value ≤ gridStep rank (topGrid rank) ∨ 10 * gridStep rank (topGrid rank) ≤ d.value) :
    HasDigits (shortest rank).value 1 := by
  obtain ⟨low,high⟩ := magnitude_top notZero
  have exact := exact_value rank
  have step := gridStep_pos rank (topGrid rank)
  obtain ⟨dropped,bound,steps,chosen,coarsest⟩ := shortest_chosen fits
  have reached : (topGrid rank - exactPlaces rank : ℤ) ≤ dropped - exactPlaces rank := by
    rcases apart with short | past
    · refine coarsest _ le_rfl (onGrid (exactPlaces rank) 1 (topGrid rank)) 1 ?_ (onGrid_value 1)
      refine Decimal.nearestRank_between reads (exact_reads fits) ?_ ?_
      all_goals rw [onGrid_value,Nat.cast_one,one_mul]
      · exact short
      · exact low.trans_eq exact.symm
    · refine coarsest _ le_rfl (onGrid (exactPlaces rank) 10 (topGrid rank)) 10 ?_ (onGrid_value 10)
      refine Decimal.nearestRank_between (exact_reads fits) reads ?_ ?_
      all_goals rw [onGrid_value,Nat.cast_ofNat]
      · exact exact.trans_le high.le
      · exact past
  obtain rfl : dropped = topGrid rank := by omega
  have near := chosen.near
  rw [chosen.placed] at near ⊢
  have few : steps ≤ 10 := by
    have scaled : (steps : ℚ) * gridStep rank (topGrid rank) < 11 * gridStep rank (topGrid rank) := by linarith
    have small : (steps : ℚ) < 11 := lt_of_mul_lt_mul_right scaled step.le
    exact Nat.lt_succ_iff.mp (mod_cast small)
  exact hasDigits_le one_pos few

theorem Chosen.le_power {dropped : Nat} {place : ℤ} (chosen : Chosen rank dropped d count) (notZero : 0 < rank)
    (bound : dropped ≤ topGrid rank) (past : (topGrid rank - exactPlaces rank : ℤ) < place) :
    d.value ≤ 10 ^ place := by
  have step := gridStep_pos rank dropped
  have above : magnitude rank < 10 ^ place :=
    calc magnitude rank < 10 * gridStep rank (topGrid rank) := (magnitude_top notZero).2
      _ = 10 ^ (topGrid rank - exactPlaces rank + 1 : ℤ) := ten_gridStep rank _
      _ ≤ 10 ^ place := zpow_le_zpow_right₀ (by norm_num) past
  have power := shift_places 1 (show (dropped - exactPlaces rank : ℤ) ≤ place by omega)
  rw [Nat.cast_one,one_mul] at power
  have near := chosen.near
  rw [power] at above ⊢
  rw [chosen.placed] at near ⊢
  generalize 1 * 10 ^ (place - (dropped - exactPlaces rank : ℤ)).toNat = reach at *
  have scaled : (count : ℚ) * gridStep rank dropped < (reach + 1) * gridStep rank dropped := by
    rw [add_one_mul]
    exact near.trans_lt (add_lt_add_left above _)
  have below : (count : ℚ) < reach + 1 := lt_of_mul_lt_mul_right scaled step.le
  have fits : count ≤ reach := Nat.lt_succ_iff.mp (mod_cast below)
  exact mul_le_mul_of_nonneg_right (mod_cast fits) step.le

theorem shortest_zero : (shortest 0).value = 0 := by
  have units : exactUnits 0 = 0 := by decide +kernel
  simp [shortest,units,shortestFrom,Decimal.value]

theorem reads_pos (notZero : 0 < rank) (reads : d.nearestRank = rank) : 0 < d.value := by
  have least : (0 : ℚ) ≤ d.value := by
    unfold Decimal.value
    positivity
  refine lt_of_le_of_ne least fun zeroValue => ?_
  have zero : d.nearestRank = 0 := by
    refine (nearestRank_eq_zero d.denominator_pos).mpr ?_
    rw [← d.value_quotient,← zeroValue]
    positivity
  omega

theorem shortest_fewest (fits : d.nearestRank ≤ infinityRank) (digits : HasDigits d.value count) :
    HasDigits (shortest d.nearestRank).value count := by
  rcases Nat.eq_zero_or_pos d.nearestRank with zero | notZero
  · rw [zero,shortest_zero]
    exact hasDigits_zero count
  · obtain ⟨m,place,one,written,least,below⟩ := digits.bounds (reads_pos notZero rfl)
    have scale : (0 : ℚ) < 10 ^ place := by positivity
    by_cases small : (count + place : ℤ) ≤ topGrid d.nearestRank - exactPlaces d.nearestRank
    · -- All of its digits stand below the first of its magnitude.
      refine (shortest_single notZero fits rfl (.inl ?_)).widen one
      exact below.le.trans (zpow_le_zpow_right₀ (by norm_num) small)
    by_cases large : (topGrid d.nearestRank - exactPlaces d.nearestRank : ℤ) < place
    · -- All of its digits stand above the first of its magnitude.
      refine (shortest_single notZero fits rfl (.inr ?_)).widen one
      calc 10 * gridStep d.nearestRank (topGrid d.nearestRank)
          = 10 ^ (topGrid d.nearestRank - exactPlaces d.nearestRank + 1 : ℤ) := ten_gridStep _ _
        _ ≤ 10 ^ place := zpow_le_zpow_right₀ (by norm_num) large
        _ ≤ d.value := least
    -- Otherwise the search stops on the grid of the number or before.
    obtain ⟨dropped,bound,steps,chosen,coarsest⟩ := shortest_chosen fits
    have reached := coarsest place (le_of_not_gt large) d m rfl written
    have under := chosen.le_power notZero bound (lt_of_not_ge small)
    have placed := chosen.placed
    rw [gridStep,shift_places steps reached] at placed
    rw [placed] at under ⊢
    rw [zpow_add₀ (by norm_num),zpow_natCast] at under
    have few := le_of_mul_le_mul_right under scale
    exact hasDigits_le one (mod_cast few)

end Fewest

end Binary64

end ScriptLexer
